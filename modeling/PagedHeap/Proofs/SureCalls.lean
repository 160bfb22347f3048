import PagedHeap.Proofs.Searches

/-! Calls that cannot go wrong. Where nothing is laid up for the calls of the volumes, a page
that is there can be had, unless the cache is full of pages that have to stay. -/
namespace PagedHeap

namespace Storage

variable {s : Storage} {v : VolumeId}

theorem countSpared (spared : s.Spares v .count) :
    Ends (fun n t => Observed s t ∧ n = .ofNat (s.pages v)) (fun _ => False) (count v s) :=
  (countEnds s v).mono (fun _ _ seen => seen) (fun _ failed => failed.2 spared)

theorem readSpared {page : UInt32} {length : Nat} {image : Bytes} (spared : s.Spares v .read)
    (held : s.page? v page.toNat = some image) (fits : length = s.pageSize v) :
    Ends (fun got t => Observed s t ∧ got = image) (fun _ => False) (read v page length s) := by
  refine (logEnds s v (.read page)).andThen (fun _ a logged => ?_) (fun _ none => none)
  refine (passEnds a v .read (some page)).andThen (fun _ b passed => ?_)
    (fun _ failed => failed.2 (logged.spares v _ spared))
  have seen := logged.trans passed
  change Ends _ _ ((demand Storage (b.checkLength v length) >>= fun _ => get >>= fun c =>
    served Storage (c.image v page)) b)
  have whole : length = b.pageSize v := fits.trans (seen.size v).symm
  rw [checkLength, if_pos whole]
  change Ends _ _ (served Storage (b.image v page) b)
  rw [imageIff.mpr ((seen.page? v page.toNat).trans held)]
  exact ⟨seen, rfl⟩

theorem pagePresent {n : Nat} (inside : n < s.pages v) : ∃ image, s.page? v n = some image := by
  unfold page?
  cases medium : (s.volume v).medium with
  | memory images =>
    simp only [pages, medium] at inside
    exact ⟨_, List.getElem?_eq_getElem inside⟩
  | file name =>
    have room := fileRoom medium inside
    have whole : (Bytes.slice (s.directory.bytes name) (n * s.pageSize v) (s.pageSize v)).length =
        s.pageSize v := by
      simp only [Bytes.slice, List.length_take, List.length_drop]
      omega
    exact ⟨_, if_pos whole⟩

theorem allocateSpared (spared : s.Spares v .allocate) :
    ∃ n t, allocate v s = .ok n t ∧ n = .ofNat (s.pages v) ∧ Enlarged s t v := by
  have sure : Ends (fun _ _ => True) (fun _ => False) (allocate v s) := by
    refine (logEnds s v .allocate).andThen (fun _ a logged => ?_) (fun _ none => none)
    refine (passEnds a v .allocate none).andThen (fun _ b passed => ?_)
      (fun _ failed => failed.2 (logged.spares v _ spared))
    exact (metEnds b v .fill none).andThen (fun _ _ _ => trivial) (fun _ none => none)
  obtain ⟨n, t, done, _⟩ := sure.sure
  have made := allocateEnds s v
  rw [done] at made
  exact ⟨n, t, done, made⟩

end Storage

theorem HeapFile.readSpared {f : HeapFile} {s : Storage} {page : PageId} {image : Bytes}
    (own : page.table = f.table) (spared : s.Spares f.volume .read)
    (held : s.page? f.volume page.number.toNat = some image)
    (size : s.pageSize f.volume = f.layout.pageSize) (whole : image.length = f.layout.pageSize) :
    Ends (fun copy t => s.Observed t ∧ f.Copied s page copy) (fun _ => False)
      (f.readPage page s) := by
  have sure : Ends (fun _ _ => True) (fun _ => False) (f.readPage page s) := by
    change Ends _ _ ((demand Storage (f.checkTable page) >>= fun _ =>
      Storage.read f.volume page.number f.layout.pageSize >>= fun image =>
        demand Storage (Page.ofImage page f.layout image)) s)
    rw [checkTable, if_pos own]
    refine (Storage.readSpared spared held size.symm).andThen (fun got t read => ?_)
      (fun _ none => none)
    obtain ⟨_, rfl⟩ := read
    rw [Page.ofImage, dif_pos whole]
    trivial
  obtain ⟨copy, t, done, _⟩ := sure.sure
  have copied := readEnds f s page
  rw [done] at copied ⊢
  exact copied

def Act.still : Act → Prop
  | .extend _ | .register _ => False
  | _ => True

namespace Act

theorem looksStill {act : Act} (h : act.looks) : act.still := by
  cases act <;> first | exact h.elim | trivial

theorem savesStill {pages : List PageId} {act : Act} (h : act.saves pages) : act.still := by
  cases act <;> first | exact h.elim | trivial

theorem forgetsStill {pages : List PageId} {act : Act} (h : act.forgets pages) : act.still := by
  cases act <;> first | exact h.elim | trivial

end Act

namespace Pool

variable {α β : Type} {p q r : Pool} {act : Act} {page : PageId} {txn : TxnId}

/- No call of a volume goes wrong, and every page has the length that its table tells. -/
structure Smooth (p : Pool) : Prop where
  calls : ∀ point, p.Spared point
  whole : p.Room → ∀ (page : PageId) file image, p.tables.get? page.table = some file →
    p.image? page = some image → image.length = file.layout.pageSize

namespace Smooth

theorem move (smooth : p.Smooth) (housed : p.Housed) (apart : p.Separate) (allowed : act.orderly)
    (move : Move act p q) : q.Smooth := by
  have tables := move.sameTables allowed
  have grew := move.grew
  refine ⟨fun point table file found => grew.storage.spares _ _
    (smooth.calls point table file (tables ▸ found)), fun room page file image found held => ?_⟩
  have before := smooth.whole (room.before grew) page file
  rw [tables] at found
  have kept (same : q.image? page = p.image? page) : image.length = file.layout.pageSize :=
    before image found (same ▸ held)
  cases move with
  | aside seen => exact kept (imageSeen seen page)
  | load | take | unprobe | fill | clear => exact kept rfl
  | evict | forget => exact kept (by simp only [image?, dropTables, dropStorage])
  | save present home stored =>
    rw [imageSaved apart home stored] at held
    split at held
    · rename_i own
      cases held
      obtain ⟨other, known, _, layout, _⟩ := housed.keeps _ _ present
      rw [own, found] at known
      cases known
      rw [← layout]
      exact Page.whole _
    · exact before image found held
  | @extend _ _ home _ there enlarged =>
    obtain ⟨blank, extended, empty⟩ := enlarged.fresh
      (housed.sized _ _ there ▸ home.layout.sizePositive) (room.before grew _ _ there)
    rw [imageExtended apart there extended] at held
    split at held
    · rename_i own
      cases held
      rw [own.1, found] at there
      cases there
      rw [empty (smooth.calls .fill _ _ found), List.length_replicate]
      exact housed.sized _ _ found
    · exact before image found held
  | giveBack | giveAll | register => exact allowed.elim

theorem moves {kind : Act → Prop} (smooth : p.Smooth) (housed : p.Housed) (apart : p.Separate)
    (allowed : ∀ act, kind act → act.orderly) (moves : Moves kind p q) : q.Smooth :=
  (moves.within (fun p q => p.Housed ∧ p.Separate ∧ p.Smooth → q.Housed ∧ q.Separate ∧ q.Smooth)
    (fun _ same => same) (fun _ _ _ first second same => second (first same))
    (fun act _ _ of move same => ⟨same.1.move move,
      same.2.1.move (Act.orderlyOld (allowed act of)) move,
      same.2.2.move same.1 same.2.1 (allowed act of) move⟩) ⟨housed, apart, smooth⟩).2.2

theorem relocked (smooth : p.Smooth) (locks : LockTable) : Smooth {p with locks} :=
  ⟨smooth.calls, smooth.whole⟩

end Smooth

/- Only growing changes the number of pages, and looking around changes nothing at all. -/

structure Sized (p q : Pool) : Prop where
  tables : q.tables = p.tables
  pages : ∀ table file, p.tables.get? table = some file →
    q.storage.pages file.volume = p.storage.pages file.volume

namespace Sized

theorem refl (p : Pool) : Sized p p := ⟨rfl, fun _ _ _ => rfl⟩

theorem trans (first : Sized p q) (second : Sized q r) : Sized p r :=
  ⟨second.tables.trans first.tables, fun table file found =>
    (second.pages table file (first.tables ▸ found)).trans (first.pages table file found)⟩

theorem numbered (sized : Sized p q) {table : TableId} (numbered : p.Numbered table) :
    q.Numbered table := fun file found => by
  rw [sized.tables] at found
  rw [sized.pages table file found]
  exact numbered file found

theorem room (sized : Sized p q) (room : p.Room) : q.Room := fun table =>
  sized.numbered (room table)

end Sized

theorem Move.sizedReads {who : Option TxnId} (allowed : act.reads who) (move : Move act p q) :
    Sized p q := by
  cases move with
  | aside seen => exact ⟨rfl, fun _ file _ => seen.pages file.volume⟩
  | evict => exact ⟨dropTables .., fun _ _ _ => by rw [dropStorage]⟩
  | load | take => exact ⟨rfl, fun _ _ _ => rfl⟩
  | _ => exact allowed.elim

theorem Moves.sizedReads {who : Option TxnId} (moves : Moves (Act.reads who) p q) : Sized p q :=
  moves.within Sized .refl (fun _ _ _ => .trans) fun _ _ _ allowed move => move.sizedReads allowed

theorem Separate.sizedMove (apart : p.Separate) (still : act.still) (move : Move act p q) :
    Sized p q := by
  cases move with
  | aside seen => exact ⟨rfl, fun _ file _ => seen.pages file.volume⟩
  | evict | forget => exact ⟨dropTables .., fun _ _ _ => by rw [dropStorage]⟩
  | @save _ home file frame storage present found stored =>
    refine ⟨rfl, fun table other known => ?_⟩
    by_cases own : home.table = table
    · subst own
      cases found.symm.trans known
      exact stored.pages
    · exact (stored.others _ (apart _ _ _ _ found known own)).2
  | extend | register => exact still.elim
  | _ => exact ⟨rfl, fun _ _ _ => rfl⟩

theorem Separate.sizedMoves {kind : Act → Prop} (apart : p.Separate)
    (still : ∀ act, kind act → act.still) (moves : Moves kind p q) : Sized p q := by
  have old {act : Act} (of : kind act) : ∀ file, act ≠ .register file := by
    rintro file rfl
    exact still _ of
  exact (moves.within (fun p q => p.Separate → q.Separate ∧ Sized p q)
    (fun p apart => ⟨apart, .refl p⟩)
    (fun p q r first second apart => by
      obtain ⟨there, early⟩ := first apart
      obtain ⟨here, late⟩ := second there
      exact ⟨here, early.trans late⟩)
    (fun act p q of move apart => ⟨apart.move (old of) move, apart.sizedMove (still act of) move⟩)
    apart).2

/- Getting pages. -/

/- The cache is full, and all that is in it has to stay. -/
structure Crowded (p : Pool) : Prop where
  full : p.capacity ≤ p.resident.size
  stay : p.victims = []

/- An answer as told, or no room for it in a cache that is crowded. -/
def Manages (done : α → Pool → Prop) (p : Pool) : EStateM.Result Error Pool α → Prop
  | .ok a q => done a q
  | .error e _ => e = .exhausted p.capacity ∧ p.Crowded

theorem Manages.andThen {done : α → Pool → Prop} {final : β → Pool → Prop} {work : Instant Pool α}
    {next : α → Instant Pool β} (first : Manages done p (work p))
    (rest : ∀ a q, done a q → Ends final (fun _ => False) (next a q)) :
    Manages final p ((work >>= next) p) := by
  change Manages final p (EStateM.bind work next p)
  unfold EStateM.bind
  cases ended : work p with
  | ok a q =>
    rw [ended] at first
    obtain ⟨b, r, done, told⟩ := (rest a q first).sure
    simp only [done]
    exact told
  | error e q =>
    rw [ended] at first
    exact first

theorem makeRoomManages (housed : p.Housed) :
    Manages (fun _ q => Moves Act.looks p q) p (makeRoom p) := by
  have made := makeRoomEnds housed
  have choice : makeRoom p = (if p.capacity ≤ p.resident.size then evict else pure ()) p := rfl
  rw [choice] at made ⊢
  split at made
  · rename_i full
    rw [if_pos full]
    cases found : p.victims with
    | nil =>
      have none : evict p = .error (.exhausted p.capacity) p := by
        unfold evict
        rw [getThen, found]
        rfl
      rw [none]
      exact ⟨rfl, full, found⟩
    | cons first rest =>
      obtain ⟨_, _, _, _, left⟩ := evictChosen found
      rw [left] at made ⊢
      exact made.1
  · rename_i space
    rw [if_neg space]
    exact .refl

theorem loadManages (housed : p.Housed) (apart : p.Separate) (smooth : p.Smooth) (room : p.Room)
    {file : HeapFile} {image : Bytes} (found : p.tables.get? page.table = some file)
    (held : p.image? page = some image) : Manages (fun _ _ => True) p (load page p) := by
  change Manages _ p ((makeRoom >>= fun _ => table page.table >>= fun file =>
    onStorage (file.readPage page) >>= fun copy => newFrame copy >>= fun frame =>
      modify (fun p => {p with resident := p.resident.insert page frame}) >>= fun _ =>
        pure frame) p)
  refine (makeRoomManages housed).andThen fun _ a before => ?_
  have reads : Moves (Act.reads none) p a := before.mono fun _ => Act.looksReads
  have there := housed.moves before
  have easy := smooth.moves housed apart (fun _ => Act.looksOrderly) before
  have known : a.tables.get? page.table = some file := before.grew.tables _ _ found
  have kept := ((reads.mono fun _ => Act.readsProbes).sameImages page).trans held
  have spacious := reads.sizedReads.room room
  have looked : Ends (fun f b => b = a ∧ f = file) (fun _ => False) (table page.table a) :=
    (tableEnds a page.table).mono (fun _ _ here => ⟨here.1, by
      rw [known] at here; exact (Option.some.inj here.2).symm⟩)
      (fun _ lost => by rw [known] at lost; cases lost.2)
  refine looked.andThen (fun f b here => ?_) (fun _ none => none)
  obtain ⟨rfl, rfl⟩ := here
  have copied : Ends (fun _ _ => True) (fun _ => False) (onStorage (f.readPage page) b) := by
    refine Ends.inPart ((HeapFile.readSpared (there.named _ _ known).symm
      (easy.calls .read _ _ known) ?_ (there.sized _ _ known)
      (easy.whole spacious page f image known kept)).mono (fun _ _ _ => trivial)
      (fun _ none => none))
    simpa only [image?, known, Option.bind_some] using kept
  exact copied.andThen (fun _ _ _ => trivial) (fun _ none => none)

theorem viewPresent {file : HeapFile} (known : p.tables.get? page.table = some file)
    (inside : page.number.toNat < p.storage.pages file.volume) :
    ∃ image, p.view? page = some image := by
  cases present : p.resident.get? page with
  | some frame => exact ⟨_, viewResident present⟩
  | none =>
    rw [viewAbsent present, image?, known]
    exact Storage.pagePresent inside

theorem fetchManages (housed : p.Housed) (apart : p.Separate) (smooth : p.Smooth) (room : p.Room)
    {file : HeapFile} {image : Bytes} (found : p.tables.get? page.table = some file)
    (seen : p.view? page = some image) :
    Manages (fun frame q => Moves Act.looks p q ∧ q.resident.get? page = some frame) p
      (fetch page p) := by
  have ends := fetchEnds housed page
  cases done : fetch page p with
  | ok frame q =>
    rw [done] at ends
    exact ends
  | error e q =>
    unfold fetch at done
    rw [getThen] at done
    cases present : p.resident.get? page with
    | some frame =>
      simp only [present] at done
      cases done
    | none =>
      simp only [present] at done
      rw [viewAbsent present] at seen
      have managed := loadManages housed apart smooth room found seen
      rw [done] at managed
      exact managed

theorem shareGranted {t : LockTable} (coherent : t.Coherent)
    (free : ∀ other, t.access? other page ≠ some .exclusive) :
    (t.request ⟨txn, page, .shared⟩).1 = true := by
  refine (coherent.requestLaw _).grantedIff.mpr fun other _ l held => ?_
  refine Bool.eq_false_iff.mpr fun conflict => ?_
  simp only [Lock.conflicts, Bool.and_eq_true, Bool.or_eq_true, decide_eq_true_eq, reduceCtorEq,
    or_false] at conflict
  have own := coherent.agrees.signed other l held
  obtain ⟨holder, home, access⟩ := l
  obtain ⟨⟨rfl, _⟩, rfl⟩ := conflict
  cases own
  exact free _ (coherent.lockOf.mpr held)

end Pool
end PagedHeap
