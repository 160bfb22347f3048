import PagedHeap.Proofs.Listing
import PagedHeap.Proofs.Placements

/-! How an insert that is left alone finds its place. Looking for a page with room changes nothing
that anybody can see, so the page is the first one that has room, or else a blank one behind
all others; and there is room on it still when its lock has been taken. -/
namespace PagedHeap

namespace Layout

/- Whether a slot is in use, and its bytes. -/
def slot? (l : Layout) (image : Bytes) (slot : Nat) : Option (Bool × Bytes) :=
  if slot < l.slots then
    some (Bits.test image slot, Bytes.slice image (l.offset slot) l.recordWidth)
  else none

theorem slotBlank (l : Layout) {slot : Nat} (inside : slot < l.slots) :
    l.slot? l.blankImage slot =
      some (false, Bytes.slice l.blankImage (l.offset slot) l.recordWidth) := by
  unfold slot?
  rw [if_pos inside, blankImage, testBlank]

end Layout

namespace Page

theorem slotOf (p : Page) {slot : Nat} (inside : slot < p.slots) :
    p.layout.slot? p.image slot = some (p.isUsed slot, p.slotBytes slot) := by
  have used : p.isUsed slot = Bits.test p.image slot := by
    simp only [isUsed, inside, decide_true, Bool.true_and]
  rw [used]
  exact if_pos inside

theorem slotBeyond (p : Page) {slot : Nat} (beyond : ¬ slot < p.slots) :
    p.layout.slot? p.image slot = none := if_neg beyond

theorem roomIff (p : Page) :
    p.hasRoom = true ↔ ∃ slot bytes, p.layout.slot? p.image slot = some (false, bytes) := by
  simp only [hasRoom, List.any_eq_true, List.mem_range, Bool.not_eq_true']
  constructor
  · rintro ⟨slot, inside, free⟩
    exact ⟨slot, _, (p.slotOf inside).trans (by rw [free])⟩
  · rintro ⟨slot, bytes, free⟩
    by_cases inside : slot < p.slots
    · rw [p.slotOf inside] at free
      exact ⟨slot, inside, congrArg Prod.fst (Option.some.inj free)⟩
    · rw [p.slotBeyond inside] at free
      cases free

theorem blankRoomy {p : Page} (blank : p.image = p.layout.blankImage) : p.hasRoom = true :=
  p.roomIff.mpr ⟨0, _, blank ▸ p.layout.slotBlank p.layout.holdsOne⟩

end Page

def Act.probes (who : Option TxnId) : Act → Prop
  | .unprobe txn _ => who = some txn
  | act => act.reads who

theorem Act.readsProbes {who : Option TxnId} {act : Act} (h : act.reads who) : act.probes who := by
  cases act <;> first | exact h | exact h.elim

theorem Act.probesOrderly {who : Option TxnId} {act : Act} (h : act.probes who) : act.orderly := by
  cases act <;> first | exact h.elim | trivial

namespace Pool

variable {α β : Type} {p q r : Pool} {act : Act} {file : HeapFile} {txn : TxnId}
  {who : Option TxnId}

/- What is seen of the slots. -/

def slot? (p : Pool) (page : PageId) (slot : Nat) : Option (Bool × Bytes) :=
  (p.tables.get? page.table).bind fun file =>
    (p.view? page).bind fun image => file.layout.slot? image slot

def Full (p : Pool) (page : PageId) : Prop := ∀ slot bytes, p.slot? page slot ≠ some (false, bytes)

theorem slotResident (housed : p.Housed) {page : PageId} {frame : Frame}
    (present : p.resident.get? page = some frame) (slot : Nat) :
    p.slot? page slot = frame.page.layout.slot? frame.page.image slot := by
  obtain ⟨file, found, _, layout, _⟩ := housed.keeps page frame present
  simp only [slot?, found, viewResident present, Option.bind_some, layout]

theorem fullResident (housed : p.Housed) {page : PageId} {frame : Frame}
    (present : p.resident.get? page = some frame) : frame.page.hasRoom = true ↔ ¬ p.Full page := by
  simp only [Page.roomIff, Full, slotResident housed present, not_forall, Decidable.not_not]

/- What is seen stays. -/

structure SeenAlike (p q : Pool) : Prop where
  tables : q.tables = p.tables
  views : ∀ page, q.view? page = p.view? page
  storage : p.storage.Observed q.storage

theorem SeenAlike.refl (p : Pool) : SeenAlike p p := ⟨rfl, fun _ => rfl, .refl _⟩

theorem SeenAlike.trans (first : SeenAlike p q) (second : SeenAlike q r) : SeenAlike p r :=
  ⟨second.tables.trans first.tables, fun page => (second.views page).trans (first.views page),
    first.storage.trans second.storage⟩

theorem SeenAlike.slot (alike : SeenAlike p q) (page : PageId) (slot : Nat) :
    q.slot? page slot = p.slot? page slot := by
  simp only [slot?, alike.tables, alike.views]

theorem SeenAlike.full (alike : SeenAlike p q) (page : PageId) : q.Full page ↔ p.Full page := by
  simp only [Full, alike.slot]

theorem Move.observed (allowed : act.probes who) (move : Move act p q) :
    p.storage.Observed q.storage := by
  cases move with
  | aside seen => exact seen
  | evict =>
    rw [dropStorage]
    exact .refl _
  | load | take | unprobe => exact .refl _
  | _ => exact allowed.elim

theorem Moves.observed (moves : Moves (Act.probes who) p q) : p.storage.Observed q.storage :=
  moves.within (fun p q => p.storage.Observed q.storage) (fun _ => .refl _)
    (fun _ _ _ => .trans) fun _ _ _ allowed move => move.observed allowed

theorem Move.sameImages (allowed : act.probes who) (move : Move act p q) (page : PageId) :
    q.image? page = p.image? page := by
  cases move with
  | aside seen => exact imageSeen seen page
  | evict => simp only [image?, dropTables, dropStorage]
  | load | take | unprobe => rfl
  | _ => exact allowed.elim

theorem Moves.sameImages (moves : Moves (Act.probes who) p q) (page : PageId) :
    q.image? page = p.image? page :=
  moves.within (fun p q => q.image? page = p.image? page) (fun _ => rfl)
    (fun _ _ _ first second => second.trans first)
    fun _ _ _ allowed move => move.sameImages allowed page

/- Every copy of the page is such, the one in the cache and the one on its volume. -/
def Copies (p : Pool) (page : PageId) (such : Bytes → Prop) : Prop := ∀ image,
  (p.image? page = some image ∨ ∃ frame, p.resident.get? page = some frame ∧
    frame.page.image = image) → such image

theorem Copies.move {page : PageId} {such : Bytes → Prop} (copies : p.Copies page such)
    (allowed : act.probes who) (move : Move act p q) : q.Copies page such := by
  intro image copy
  rw [move.sameImages allowed] at copy
  cases move with
  | @load _ other its fresh absent space found copied =>
    obtain shown | ⟨frame, present, same⟩ := copy
    · exact copies image (.inl shown)
    · rw [KeyMap.getInsert] at present
      split at present
      · rename_i own
        cases present
        subst own same
        refine copies _ (.inl ?_)
        simp only [image?, found, Option.bind_some]
        exact copied.image
      · exact copies image (.inr ⟨frame, present, same⟩)
  | evict =>
    refine copies image (copy.imp_right fun kept => ?_)
    obtain ⟨frame, present, same⟩ := kept
    rw [residentDrop] at present
    split at present
    · cases present
    · exact ⟨frame, present, same⟩
  | aside | take | unprobe => exact copies image copy
  | _ => exact allowed.elim

theorem Copies.moves {page : PageId} {such : Bytes → Prop} (copies : p.Copies page such)
    (moves : Moves (Act.probes who) p q) : q.Copies page such :=
  moves.within (fun p q => p.Copies page such → q.Copies page such) (fun _ same => same)
    (fun _ _ _ first second same => second (first same))
    (fun _ _ _ allowed move same => same.move allowed move) copies

/- The page that a file has grown by is not in the cache. -/
theorem Housed.freshCopies (housed : p.Housed) (known : p.Knows file)
    (few : p.storage.pages file.volume < UInt32.size) {storage : Storage} {image : Bytes}
    (extended : p.storage.Extended storage file.volume image) :
    Copies {p with storage} ⟨file.table, .ofNat (p.storage.pages file.volume)⟩ (· = image) := by
  have last : (UInt32.ofNat (p.storage.pages file.volume)).toNat = p.storage.pages file.volume :=
    UInt32.toNat_ofNat_of_lt' few
  have found : p.tables.get? file.table = some file := known
  rintro other (below | ⟨frame, present, -⟩)
  · simp only [image?, found, Option.bind_some, extended.page, last, if_true] at below
    exact (Option.some.inj below).symm
  · exact absurd last (Nat.ne_of_lt (housed.notBeyond (show p.tables.get? (PageId.table
      ⟨file.table, .ofNat (p.storage.pages file.volume)⟩) = some file from known) present))

theorem Move.seenAlike (mirrored : p.Mirrored) (allowed : act.probes who) (move : Move act p q) :
    SeenAlike p q := by
  refine ⟨move.sameTables (Act.probesOrderly allowed), ?_, move.observed allowed⟩
  cases move with
  | aside seen => exact mirrored.lookViews (by trivial) (.aside seen)
  | load absent space found copied =>
    exact mirrored.lookViews (by trivial) (.load absent space found copied)
  | evict present clean free => exact mirrored.lookViews (by trivial) (.evict present clean free)
  | take | unprobe => exact fun _ => rfl
  | _ => exact allowed.elim

theorem Mirrored.probe (mirrored : p.Mirrored) (allowed : act.probes who) (move : Move act p q) :
    q.Mirrored := by
  intro other held present clean
  cases move with
  | aside seen => exact (imageSeen seen other).trans (mirrored other held present clean)
  | load absent space found copied =>
    rw [KeyMap.getInsert] at present
    split at present
    · rename_i same
      cases present
      subst same
      simp only [image?, found, Option.bind_some]
      exact copied.image
    · exact mirrored other held present clean
  | evict =>
    rw [residentDrop] at present
    split at present
    · cases present
    · simp only [image?, dropTables, dropStorage]
      exact mirrored other held present clean
  | take | unprobe => exact mirrored other held present clean
  | _ => exact allowed.elim

structure Searchable (p : Pool) : Prop extends Sound p where
  apart : p.Separate
  mirrored : p.Mirrored

theorem Sound.searchable (sound : p.Sound) (apart : p.Separate) (room : p.Room) : p.Searchable :=
  ⟨sound, apart, sound.mirrored apart room⟩

theorem Searchable.probed (able : p.Searchable) (moves : Moves (Act.probes who) p q) :
    q.Searchable ∧ SeenAlike p q := by
  refine moves.within (fun p q => p.Searchable → q.Searchable ∧ SeenAlike p q)
    (fun p able => ⟨able, .refl p⟩) (fun _ _ _ first second able => ?_)
    (fun act p q allowed move able => ?_) able
  · obtain ⟨there, early⟩ := first able
    obtain ⟨here, late⟩ := second there
    exact ⟨here, early.trans late⟩
  · exact ⟨⟨able.toSound.move move,
      able.apart.move (Act.orderlyOld (Act.probesOrderly allowed)) move,
      able.mirrored.probe allowed move⟩, move.seenAlike able.mirrored allowed⟩

/- Activities that are left alone. -/

theorem getPageSettles (housed : p.Housed) (txn : TxnId) (page : PageId) (access : Access) :
    Ends (fun frame q => Moves (Act.probes (some txn)) p q ∧ Got txn page access p.locks frame q)
      (Moves (Act.probes (some txn)) p) ((getPage txn page access).settled p) := by
  have only {q : Pool} (moves : Moves (Act.readsOn (some txn) page.table) p q) :
      Moves (Act.probes (some txn)) p q := moves.mono fun _ own => Act.readsProbes own.1
  refine ((getPageReaches housed txn page access).settled housed).mono (fun frame q ended => ?_)
    (fun q lost => only lost)
  obtain ⟨m, moves, rfl, got⟩ := ended
  exact ⟨only moves, got⟩

inductive Stops (p : Pool) (table : TableId) : List UInt32 → Option PageId → Prop
  | end : Stops p table [] none
  | here {number rest} (room : ¬ p.Full ⟨table, number⟩) :
      Stops p table (number :: rest) (some ⟨table, number⟩)
  | past {number rest page?} (full : p.Full ⟨table, number⟩) (later : Stops p table rest page?) :
      Stops p table (number :: rest) page?

namespace Stops

variable {table : TableId} {numbers : List UInt32}

theorem alike (alike : SeenAlike p q) {page? : Option PageId}
    (stops : Stops q table numbers page?) :
    Stops p table numbers page? := by
  induction stops with
  | «end» => exact .end
  | here room => exact .here fun full => room ((alike.full _).mpr full)
  | past full _ ih => exact .past ((alike.full _).mp full) ih

theorem nowhere (stops : Stops p table numbers none) :
    ∀ number ∈ numbers, p.Full ⟨table, number⟩ := by
  generalize same : (none : Option PageId) = page? at stops
  induction stops with
  | «end» => exact nofun
  | here => cases same
  | past full _ ih =>
    intro number there
    rcases List.mem_cons.mp there with rfl | later
    · exact full
    · exact ih same number later

theorem somewhere {page : PageId} (ascending : numbers.Pairwise (· < ·))
    (stops : Stops p table numbers (some page)) :
    page.table = table ∧ page.number ∈ numbers ∧ ¬ p.Full page ∧
      ∀ number ∈ numbers, number < page.number → p.Full ⟨table, number⟩ := by
  generalize same : some page = page? at stops
  induction stops with
  | «end» => cases same
  | @here first rest room =>
    cases same
    obtain ⟨behind, _⟩ := List.pairwise_cons.mp ascending
    refine ⟨rfl, List.mem_cons_self, room, fun number there before => ?_⟩
    rcases List.mem_cons.mp there with rfl | later
    · exact absurd before (UInt32.lt_irrefl _)
    · exact absurd (UInt32.lt_trans before (behind number later)) (UInt32.lt_irrefl _)
  | past full _ ih =>
    obtain ⟨_, ahead⟩ := List.pairwise_cons.mp ascending
    obtain ⟨home, inside, room, before⟩ := ih ahead same
    refine ⟨home, List.mem_cons_of_mem _ inside, room, fun number there => ?_⟩
    rcases List.mem_cons.mp there with rfl | later
    · exact fun _ => full
    · exact before number later

end Stops

theorem firstWithRoomSettles (able : p.Searchable) (file : HeapFile) (numbers : List UInt32) :
    Ends (fun page? q => Moves (Act.probes (some txn)) p q ∧ Stops p file.table numbers page?)
      (Moves (Act.probes (some txn)) p) ((file.firstWithRoom txn numbers).settled p) := by
  induction numbers generalizing p with
  | nil => exact ⟨.refl, .end⟩
  | cons number rest ih =>
    simp only [HeapFile.firstWithRoom, Activity.settledBind, Activity.settledLift,
      Activity.settledIte]
    have asked : Ends (fun held q => q = p ∧ held = p.locks.holds txn ⟨file.table, number⟩)
        (Moves (Act.probes (some txn)) p) (holds txn ⟨file.table, number⟩ p) := ⟨rfl, rfl⟩
    refine asked.andThen (fun held q seen => ?_) (fun _ lost => lost)
    obtain ⟨rfl, rfl⟩ := seen
    refine (getPageSettles able.toHoused txn ⟨file.table, number⟩ .shared).andThen
      (fun frame r got => ?_) (fun _ lost => lost)
    obtain ⟨moves, present, access⟩ := got
    obtain ⟨there, alike⟩ := able.probed moves
    have room : frame.page.hasRoom = true ↔ ¬ q.Full ⟨file.table, number⟩ :=
      (fullResident there.toHoused present).trans (not_congr (alike.full _))
    split
    · rename_i roomy
      exact ⟨moves, .here (room.mp roomy)⟩
    · rename_i crowded
      have full : q.Full ⟨file.table, number⟩ := Classical.not_not.mp (mt room.mpr crowded)
      have given : Ends (fun _ s => Moves (Act.probes (some txn)) r s) (fun _ => False)
          (releaseProbe (q.locks.holds txn ⟨file.table, number⟩) txn ⟨file.table, number⟩ r) := by
        cases held : q.locks.holds txn ⟨file.table, number⟩ with
        | true => exact .refl
        | false =>
          have missing : q.locks.access? txn ⟨file.table, number⟩ = none := by
            simpa [LockTable.holds] using held
          rw [missing] at access
          have own : Act.probes (some txn) (.unprobe txn ⟨file.table, number⟩) := rfl
          exact .one own (.unprobe access)
      refine given.andThen (fun _ s left => ?_) (fun _ none => none.elim)
      have later := moves.trans left
      obtain ⟨here, same⟩ := able.probed later
      exact (ih here).mono
        (fun page? t ended => ⟨later.trans ended.1, .past full (ended.2.alike same)⟩)
        (fun t lost => later.trans lost)

theorem memNumbers {count number : UInt32} :
    number ∈ (List.range count.toNat).map UInt32.ofNat ↔ number < count := by
  simp only [List.mem_map, List.mem_range, UInt32.lt_iff_toNat_lt]
  constructor
  · rintro ⟨n, inside, rfl⟩
    rwa [UInt32.toNat_ofNat_of_lt' (Nat.lt_trans inside count.toNat_lt)]
  · exact fun inside => ⟨number.toNat, inside, UInt32.ofNat_toNat⟩

theorem numbersAscend (count : UInt32) :
    ((List.range count.toNat).map UInt32.ofNat).Pairwise (· < ·) := by
  refine List.pairwise_map.mpr (List.pairwise_lt_range.imp_of_mem fun _ there before => ?_)
  exact Rows.wordLt before (Nat.lt_trans (List.mem_range.mp there) count.toNat_lt)

inductive Sought (txn : TxnId) (p : Pool) (file : HeapFile) : PageId → Pool → Prop
  | found {home q} (moves : Moves (Act.probes (some txn)) p q) (own : home.table = file.table)
      (room : ¬ p.Full home)
      (first : ∀ number, number < home.number → p.Full ⟨file.table, number⟩) :
      Sought txn p file home q
  | added {a b q} (early : Moves (Act.probes (some txn)) p a)
      (extended : Move (.extend file.table) a b) (late : Moves (Act.probes (some txn)) b q)
      (full : ∀ number, number.toNat < p.storage.pages file.volume → p.Full ⟨file.table, number⟩) :
      Sought txn p file ⟨file.table, .ofNat (p.storage.pages file.volume)⟩ q

theorem Sought.then {home : PageId} (sought : Sought txn p file home q)
    (moves : Moves (Act.probes (some txn)) q r) : Sought txn p file home r := by
  cases sought with
  | found early own room first => exact .found (early.trans moves) own room first
  | added early extended late full => exact .added early extended (late.trans moves) full

theorem pageWithRoomSettles (able : p.Searchable) (known : p.Knows file)
    (few : p.storage.pages file.volume < UInt32.size) :
    Ends (Sought txn p file) (Moves (Act.probes (some txn)) p)
      ((file.pageWithRoom txn).settled p) := by
  simp only [HeapFile.pageWithRoom, Activity.settledBind, Activity.settledLift]
  have counted : Ends (fun n q => Moves (Act.probes (some txn)) p q ∧
        n = .ofNat (p.storage.pages file.volume))
      (Moves (Act.probes (some txn)) p) (onStorage file.count p) :=
    Ends.inPart ((Storage.countEnds p.storage file.volume).mono
      (fun _ _ seen => ⟨.aside trivial seen.1, seen.2⟩) (fun _ failed => .aside trivial failed.1))
  refine counted.andThen (fun count q seen => ?_) (fun _ lost => lost)
  obtain ⟨moves, rfl⟩ := seen
  obtain ⟨there, alike⟩ := able.probed moves
  have count : (UInt32.ofNat (p.storage.pages file.volume)).toNat = p.storage.pages file.volume :=
    UInt32.toNat_ofNat_of_lt' few
  refine (firstWithRoomSettles there file _).andThen (fun page? r ended => ?_)
    (fun _ lost => moves.trans lost)
  obtain ⟨further, stops⟩ := ended
  have early := moves.trans further
  replace stops := stops.alike alike
  cases page? with
  | some page =>
    obtain ⟨own, inside, room, first⟩ := stops.somewhere (numbersAscend _)
    rw [memNumbers] at inside
    exact .found early own room fun number before =>
      first number (memNumbers.mpr (UInt32.lt_trans before inside)) before
  | none =>
    obtain ⟨_, same⟩ := able.probed early
    have full := stops.nowhere
    refine Ends.inPart ((HeapFile.allocateEnds file r.storage).mono (fun page storage made => ?_)
      (fun storage seen => early.trans (.aside trivial seen)))
    obtain ⟨rfl, enlarged⟩ := made
    rw [same.storage.pages]
    refine .added early (.extend (known.later early.grew) enlarged) .refl fun number inside => ?_
    refine full number (memNumbers.mpr ?_)
    rwa [UInt32.lt_iff_toNat_lt, count]

/- What is seen when the file has grown by a blank page. -/

structure Grown (p : Pool) (file : HeapFile) (q : Pool) : Prop where
  tables : q.tables = p.tables
  views : ∀ page : PageId, q.view? page =
    if file.table = page.table ∧ page.number.toNat = p.storage.pages file.volume then
      some file.layout.blankImage
    else p.view? page
  storage : p.storage.Extended q.storage file.volume file.layout.blankImage

theorem Searchable.grown (able : p.Searchable) (known : p.Knows file)
    (few : p.storage.pages file.volume < UInt32.size) (blank : p.storage.Spares file.volume .fill)
    {a b : Pool} (early : Moves (Act.probes who) p a) (extended : Move (.extend file.table) a b)
    (late : Moves (Act.probes who) b q) : q.Searchable ∧ Grown p file q := by
  obtain ⟨there, before⟩ := able.probed early
  cases extended with
  | @extend _ _ its storage found enlarged =>
    cases found.symm.trans (known.later early.grew)
    have size : a.storage.pageSize file.volume = file.layout.pageSize := there.sized _ _ found
    have here : a.storage.pages file.volume < UInt32.size := before.storage.pages _ ▸ few
    obtain ⟨image, extended, zeroes⟩ := enlarged.fresh (size ▸ file.layout.sizePositive) here
    rw [size] at zeroes
    obtain rfl := zeroes (before.storage.spares _ _ blank)
    have larger : Searchable {a with storage} := by
      have move : Move (.extend file.table) a {a with storage} := .extend found enlarged
      refine ⟨there.toSound.move move, there.apart.move (fun _ other => by cases other) move,
        fun page frame present clean => ?_⟩
      exact (there.imageKept there.apart found enlarged here present).trans
        (there.mirrored page frame present clean)
    obtain ⟨last, after⟩ := larger.probed late
    refine ⟨last, after.tables.trans before.tables, fun page => ?_, ?_⟩
    · rw [after.views, there.viewExtended there.apart found extended, before.views,
        before.storage.pages]
      rfl
    · exact (before.storage.extended extended).observed after.storage

theorem Grown.slot (grown : Grown p file q) (known : p.Knows file)
    (few : p.storage.pages file.volume < UInt32.size) (slot : Nat) :
    q.slot? ⟨file.table, .ofNat (p.storage.pages file.volume)⟩ slot =
      file.layout.slot? file.layout.blankImage slot := by
  have last : (UInt32.ofNat (p.storage.pages file.volume)).toNat = p.storage.pages file.volume :=
    UInt32.toNat_ofNat_of_lt' few
  have found : p.tables.get? file.table = some file := known
  simp only [slot?, grown.tables, grown.views, last, found, and_self, if_true, Option.bind_some]

theorem Grown.roomy (grown : Grown p file q) (known : p.Knows file)
    (few : p.storage.pages file.volume < UInt32.size) :
    ¬ q.Full ⟨file.table, .ofNat (p.storage.pages file.volume)⟩ :=
  fun full => full 0 _ ((grown.slot known few 0).trans (file.layout.slotBlank file.layout.holdsOne))

theorem Sought.arrived {home : PageId} (able : p.Searchable) (known : p.Knows file)
    (few : p.storage.pages file.volume < UInt32.size) (blank : p.storage.Spares file.volume .fill)
    (sought : Sought txn p file home q) :
    q.Searchable ∧ home.table = file.table ∧ ¬ q.Full home := by
  cases sought with
  | found moves own room =>
    obtain ⟨there, alike⟩ := able.probed moves
    exact ⟨there, own, fun full => room ((alike.full home).mp full)⟩
  | added early extended late =>
    obtain ⟨there, grown⟩ := able.grown known few blank early extended late
    exact ⟨there, rfl, grown.roomy known few⟩

/- The page still has room when it is owned, so no second walk is needed. -/
theorem insertAtSettles (able : p.Searchable) (known : p.Knows file)
    (few : p.storage.pages file.volume < UInt32.size) (blank : p.storage.Spares file.volume .fill)
    {home : PageId} (sought : Sought txn p file home q) (data : Bytes) (tries : Nat) :
    Ends (fun x r => ∃ m, Sought txn p file x.1.page m ∧ Move (.fill txn x.1 data) m r ∧
        Pinned txn x.2 r)
      (Sought txn p file home)
      (((getPage txn home .exclusive).settled >>= fun frame =>
        if frame.page.hasRoom then (monadLift (HeapFile.fill txn data frame) :
          Activity Pool (Rid × Frame)).settled
        else (file.insertWithin txn data tries).settled) q) := by
  obtain ⟨there, _, _⟩ := sought.arrived able known few blank
  refine (getPageSettles there.toHoused txn home .exclusive).andThen (fun frame r got => ?_)
    (fun _ => sought.then)
  obtain ⟨moves, present, access⟩ := got
  have later := sought.then moves
  obtain ⟨here, own, room⟩ := later.arrived able known few blank
  rw [if_pos ((fullResident here.toHoused present).mpr room)]
  have owns : r.locks.access? txn home = some .exclusive := by
    rw [access]
    split <;> rfl
  refine (fillEnds here.toHoused data present owns).mono (fun x s filled => ?_)
    (fun s same => same ▸ later)
  obtain ⟨move, pinned, place⟩ := filled
  exact ⟨r, place ▸ later, move, pinned⟩

theorem insertWithinSettles (able : p.Searchable) (known : p.Knows file)
    (few : p.storage.pages file.volume < UInt32.size) (blank : p.storage.Spares file.volume .fill)
    (data : Bytes) (tries : Nat) :
    Ends (fun x q => ∃ m, Sought txn p file x.1.page m ∧ Move (.fill txn x.1 data) m q ∧
        Pinned txn x.2 q)
      (fun _ => True) ((file.insertWithin txn data (tries + 1)).settled p) := by
  simp only [HeapFile.insertWithin, Activity.settledBind, Activity.settledIte]
  refine (pageWithRoomSettles able known few).andThen (fun home q sought => ?_) fun _ _ => trivial
  exact (insertAtSettles able known few blank sought data tries).mono (fun _ _ filled => filled)
    fun _ _ => trivial

/- The rest of an insert only looks at the width of the record, and pins a page that stays. -/
theorem insertFromWithin (known : p.Knows file) {data : Bytes} {lost : Pool → Prop}
    (refused : ¬ file.layout.Takes data → lost p)
    (within : Ends (fun x q => ∃ m, Sought txn p file x.1.page m ∧ Move (.fill txn x.1 data) m q ∧
        Pinned txn x.2 q) lost ((file.insertWithin txn data UInt32.size).settled p)) :
    Ends (fun rid q => ∃ m, Sought txn p file rid.page m ∧ Move (.fill txn rid data) m q) lost
      ((insert txn file.table data).settled p) := by
  have looked : Ends (fun f q => q = p ∧ f = file) lost (table file.table p) := by
    rw [tableFound known]
    exact ⟨rfl, rfl⟩
  simp only [insert, HeapFile.insert, Activity.settledBind, Activity.settledLift]
  refine looked.andThen (fun f q here => ?_) (fun _ lost => lost)
  obtain ⟨rfl, rfl⟩ := here
  have width : Ends (fun _ r => r = q) lost (demand Pool (f.checkWidth data) q) := by
    unfold HeapFile.checkWidth
    split
    · exact rfl
    · rename_i wide
      exact refused wide
  have placed : Ends (fun x r => ∃ m, Sought txn q f x.1.page m ∧ Move (.fill txn x.1 data) m r ∧
      Pinned txn x.2 r) lost ((demand Pool (f.checkWidth data) >>= fun _ =>
        (f.insertWithin txn data UInt32.size).settled) q) := by
    refine width.andThen (fun _ r same => ?_) (fun _ lost => lost)
    subst same
    exact within
  refine placed.andThen (fun x r filled => ?_) (fun _ lost => lost)
  obtain ⟨m, sought, move, pinned⟩ := filled
  change Ends _ _ ((pin txn x.2 >>= fun _ => pure x.1) r)
  have same : Ends (fun _ s => s = r) lost (pin txn x.2 r) := by
    rw [pinSame pinned]
    exact rfl
  refine same.andThen (fun _ s same => ?_) (fun _ lost => lost)
  subst same
  exact ⟨m, sought, move⟩

theorem insertSettles (able : p.Searchable) (room : p.Room) (blank : p.Spared .fill)
    (txn : TxnId) (table : TableId) (data : Bytes) :
    Ends (fun rid q => ∃ file m, p.Knows file ∧ file.table = table ∧ Sought txn p file rid.page m ∧
        Move (.fill txn rid data) m q)
      (fun _ => True) ((insert txn table data).settled p) := by
  cases found : p.tables.get? table with
  | none =>
    simp only [insert, Activity.settledBind, Activity.settledLift]
    refine (tableEnds p table).andThen (fun file q here => ?_) (fun _ _ => trivial)
    exact absurd (found.symm.trans here.2) nofun
  | some file =>
    obtain rfl := able.named table file found
    obtain ⟨tries, count⟩ : ∃ tries, UInt32.size = tries + 1 := ⟨_, rfl⟩
    have within : Ends _ _ ((file.insertWithin txn data (tries + 1)).settled p) :=
      insertWithinSettles able found (room _ _ found) (blank _ _ found) data tries
    rw [← count] at within
    refine (insertFromWithin found (fun _ => trivial) within).mono (fun rid q ended => ?_)
      (fun _ lost => lost)
    obtain ⟨m, sought, move⟩ := ended
    exact ⟨file, m, found, rfl, sought, move⟩

end Pool
end PagedHeap
