import PagedHeap.Proofs.FailedEdits
import PagedHeap.Proofs.Isolation
import PagedHeap.Proofs.LockFootprints
import PagedHeap.Proofs.SureCalls
import PagedHeap.Proofs.Upkeep

/-! How often an insert looks for a place. A page that was seen to have room stays in the cache
until its lock is raised, so a page can turn out to be full only if the file has grown by it a
moment before; and the volume has to have laid it up as a full one. -/
namespace PagedHeap

/- Pages that are going to be full. -/

def Verdict.fills : List Verdict → Nat
  | [] => 0
  | v :: rest => (if v.point = .fill ∧ v.cause.isSome then 1 else 0) + fills rest

def Fault.fills : List Fault → Nat
  | [] => 0
  | f :: rest => (if f.point = .fill ∧ f.page = none then f.left else 0) + fills rest

theorem Verdict.takeFills {point : FaultPoint} {verdicts left : List Verdict}
    {cause : Option IoError} (taken : take point verdicts = some (cause, left)) :
    fills verdicts = (if point = .fill ∧ cause.isSome then 1 else 0) + fills left := by
  induction verdicts generalizing cause left with
  | nil => cases taken
  | cons v rest ih =>
    simp only [take] at taken
    split at taken
    · rename_i here
      cases taken
      simp only [fills, here]
    · obtain ⟨⟨hit, behind⟩, later, same⟩ := Option.map_eq_some_iff.mp taken
      cases same
      simp only [fills, ih later]
      omega

theorem Fault.takeFills {point : FaultPoint} {page : Option UInt32} {script left : List Fault}
    {cause : IoError} (taken : take point page script = some (cause, left)) :
    fills left ≤ fills script ∧ (point = .fill → page = none → fills left < fills script) := by
  induction script generalizing cause left with
  | nil => cases taken
  | cons f rest ih =>
    simp only [take] at taken
    split at taken
    · rename_i here
      cases taken
      simp only [meets, Bool.and_eq_true, Bool.or_eq_true, decide_eq_true_eq] at here
      obtain ⟨⟨point, some⟩, free⟩ := here
      simp only [fills]
      refine ⟨by split <;> omega, fun fill any => ?_⟩
      have own : f.page = none := free.elim id fun same => same.trans any
      rw [if_pos ⟨point.trans fill, own⟩, if_pos ⟨point.trans fill, own⟩]
      omega
    · obtain ⟨⟨hit, behind⟩, later, same⟩ := Option.map_eq_some_iff.mp taken
      cases same
      obtain ⟨fewer, less⟩ := ih later
      simp only [fills]
      exact ⟨Nat.add_le_add_left fewer _, fun fill any => Nat.add_lt_add_left (less fill any) _⟩

namespace Storage

def fills (s : Storage) (v : VolumeId) : Nat :=
  Verdict.fills (s.volume v).verdicts + Fault.fills (s.volume v).script

def Spends (s t : Storage) : Prop := ∀ v, t.fills v ≤ s.fills v

instance : Std.Refl Spends := ⟨fun _ _ => Nat.le_refl _⟩

instance : Trans Spends Spends Spends := ⟨fun first second v => Nat.le_trans (second v) (first v)⟩

variable {s t : Storage}

theorem spendsUpdate {v : VolumeId} {change : Volume → Volume}
    (fewer : Verdict.fills (change (s.volume v)).verdicts +
      Fault.fills (change (s.volume v)).script ≤ s.fills v) : Spends s (s.update v change) := by
  intro w
  simp only [fills, volumeUpdate]
  split
  · rename_i own
    obtain ⟨rfl, _⟩ := own
    exact fewer
  · exact Nat.le_refl _

theorem spendsUpkeep : Upkeep Spends where
  logs _ _ _ _ := spendsUpdate (Nat.le_refl _)
  meets v point page s := by
    unfold met
    split
    · rename_i cause left taken
      refine spendsUpdate ?_
      simp only [fills, Verdict.takeFills taken]
      omega
    · split
      · exact fun _ => Nat.le_refl _
      · rename_i cause left taken
        exact spendsUpdate (Nat.add_le_add_left (Fault.takeFills taken).1 _)
  grows s v _ := by
    unfold extend
    cases (s.volume v).medium with
    | memory pages => exact spendsUpdate (Nat.le_refl _)
    | file name => exact fun _ => Nat.le_refl _

theorem metFill (s : Storage) (v : VolumeId) :
    Ends (fun cause t => cause.isSome → t.fills v < s.fills v) (fun _ => False)
      (met v .fill none s) := by
  have present (laid : 0 < s.fills v) : v < s.volumes.length := by
    refine Nat.lt_of_not_le fun outside => ?_
    rw [fills, volumeOutside outside] at laid
    cases laid
  unfold met
  split
  · rename_i cause left taken
    intro full
    have one := Verdict.takeFills taken
    rw [if_pos ⟨rfl, full⟩] at one
    have inside := present (by rw [fills]; omega)
    simp only [fills, ownVolume inside]
    omega
  · split
    · exact nofun
    · rename_i cause left taken
      intro _
      have less := (Fault.takeFills taken).2 rfl rfl
      have inside := present (by rw [fills]; omega)
      simp only [fills, ownVolume inside]
      omega

theorem allocateFills (s : Storage) (v : VolumeId) :
    Ends (fun _ t => t.fills v < s.fills v ∨ (0 < s.pageSize v → s.pages v < UInt32.size →
        Extended s t v (List.replicate (s.pageSize v) 0))) (fun _ => True) (allocate v s) := by
  refine ((logEnds s v .allocate).both (spendsUpkeep.logs v .allocate nofun s)).andThen
    (fun _ a logged => ?_) (fun _ none => none.1.elim)
  refine ((passEnds a v .allocate none).both (spendsUpkeep.pass v .allocate none a)).andThen
    (fun _ b passed => ?_) (fun _ _ => trivial)
  have full := (metFill b v).both (spendsUpkeep.meets v .fill none b)
  refine ((metEnds b v .fill none).both full).andThen (fun cause c met => ?_)
    (fun _ none => none.1.elim)
  have seen := (logged.1.trans passed.1).trans met.1.1
  have laid : b.fills v ≤ s.fills v := Nat.le_trans (passed.2 v) (logged.2 v)
  cases cause with
  | some cause =>
    have extended := spendsUpkeep.grows c v 255 v
    exact .inl (Nat.lt_of_le_of_lt extended (Nat.lt_of_lt_of_le (met.2.1 rfl) laid))
  | none =>
    refine .inr fun positive few => ?_
    have size : c.pageSize v = s.pageSize v := seen.size v
    have whole : (List.replicate (c.pageSize v) (0 : UInt8)).length = c.pageSize v :=
      List.length_replicate
    have made := seen.extended (extended (size ▸ positive) whole (seen.pages v ▸ few))
    rw [← size]
    exact made

end Storage

namespace HeapFile

/- What one pass comes to: the page it has come to own is full, or the record is stored. -/
inductive Passed where
  | vain (page : PageId)
  | stored (x : Rid × Frame)

def pass (f : HeapFile) (txn : TxnId) (data : Bytes) : Activity Pool Passed := do
  let home ← f.pageWithRoom txn
  let frame ← Pool.getPage txn home .exclusive
  if frame.page.hasRoom then
    let x ← fill txn data frame
    pure (.stored x)
  else pure (.vain home)

theorem insertWithinPasses (f : HeapFile) (txn : TxnId) (data : Bytes) (tries : Nat) (p : Pool) :
    (f.insertWithin txn data (tries + 1)).settled p = match (f.pass txn data).settled p with
      | .ok (.vain _) q => (f.insertWithin txn data tries).settled q
      | .ok (.stored x) q => .ok x q
      | .error e q => .error e q := by
  simp only [insertWithin, pass, Activity.settledBind, Activity.settledIte, Activity.settledLift,
    Activity.settledPure]
  simp only [bind, EStateM.bind]
  cases (f.pageWithRoom txn).settled p with
  | error e q => rfl
  | ok home q =>
    simp only
    cases (Pool.getPage txn home .exclusive).settled q with
    | error e r => rfl
    | ok frame r =>
      by_cases room : frame.page.hasRoom = true
      · simp only [room, if_true, EStateM.bind]
        cases fill txn data frame r <;> rfl
      · simp only [room]
        rfl

end HeapFile

namespace Pool

/- Passes one after the other, all in vain, and the pages they have found full. -/
inductive Vainly (file : HeapFile) (txn : TxnId) (data : Bytes) : Pool → List PageId → Pool → Prop
  | none {p : Pool} : Vainly file txn data p [] p
  | again {p q r : Pool} {page pages} (vain : (file.pass txn data).settled p = .ok (.vain page) q)
      (later : Vainly file txn data q pages r) : Vainly file txn data p (page :: pages) r

inductive Last (file : HeapFile) (txn : TxnId) (data : Bytes) (p : Pool) :
    EStateM.Result Error Pool (Rid × Frame) → Prop
  | stored {x q} (stored : (file.pass txn data).settled p = .ok (.stored x) q) :
      Last file txn data p (.ok x q)
  | failed {e q} (failed : (file.pass txn data).settled p = .error e q) :
      Last file txn data p (.error e q)

inductive Offers (txn : TxnId) (p : Pool) (file : HeapFile) : PageId → Pool → Prop
  | roomy {home q} (moves : Moves (Act.probes (some txn)) p q)
      (here : ∃ frame, q.resident.get? home = some frame ∧ frame.page.hasRoom = true) :
      Offers txn p file home q
  | fresh {a storage} (early : Moves (Act.probes (some txn)) p a)
      (enlarged : a.storage.Enlarged storage file.volume)
      (laid : storage.fills file.volume < p.storage.fills file.volume ∨
        (0 < a.storage.pageSize file.volume → a.storage.pages file.volume < UInt32.size →
          a.storage.Extended storage file.volume
            (List.replicate (a.storage.pageSize file.volume) 0))) :
      Offers txn p file ⟨file.table, .ofNat (p.storage.pages file.volume)⟩ {a with storage}

variable {file : HeapFile} {txn : TxnId} {data : Bytes} {p q r : Pool}

theorem Vainly.leaves {pages : List PageId} (vainly : Vainly file txn data p pages q)
    (tries : Nat) : (file.insertWithin txn data (tries + pages.length)).settled p =
      (file.insertWithin txn data tries).settled q := by
  induction vainly with
  | none => rfl
  | again vain later ih =>
    rw [List.length_cons, ← Nat.add_assoc, HeapFile.insertWithinPasses, vain]
    exact ih

theorem Last.insertWithin {result : EStateM.Result Error Pool (Rid × Frame)}
    (last : Last file txn data p result) (tries : Nat) :
    (file.insertWithin txn data (tries + 1)).settled p = result := by
  rw [HeapFile.insertWithinPasses]
  cases last with
  | stored stored => rw [stored]
  | failed failed => rw [failed]

/- One pass. -/

def Spends (p q : Pool) : Prop := p.storage.Spends q.storage

instance : Std.Refl Spends := ⟨fun _ _ => Nat.le_refl _⟩

instance : Trans Spends Spends Spends := ⟨fun first second v => Nat.le_trans (second v) (first v)⟩

theorem spendsUpkeep (who : Option TxnId) : Upkeep who Spends :=
  .ofStorage Storage.spendsUpkeep (fun _ _ => id) (fun _ _ _ _ _ _ => Nat.le_refl _)
    fun _ _ _ _ => Nat.le_refl _

theorem pageWithRoomOffers (housed : p.Housed) :
    Ends (Offers txn p file) (Moves (Act.probes (some txn)) p)
      ((file.pageWithRoom txn).settled p) := by
  simp only [HeapFile.pageWithRoom, Activity.settledBind, Activity.settledLift]
  have counted :
      Ends (fun _ q => Moves (Act.probes (some txn)) p q) (Moves (Act.probes (some txn)) p)
        (onStorage file.count p) :=
    Ends.inPart ((Storage.countEnds p.storage file.volume).mono
      (fun _ _ seen => .aside trivial seen.1) (fun _ failed => .aside trivial failed.1))
  refine (counted.both ((spendsUpkeep (some txn)).counts file.volume p)).andThen
    (fun count q seen => ?_) (fun _ lost => lost.1)
  obtain ⟨moves, early⟩ := seen
  refine ((firstWithRoomLocks (housed.moves moves) file _).both
    (((spendsUpkeep (some txn)).pieces.firstWithRoom file _).settled q)).andThen
    (fun page? r ended => ?_) (fun _ lost => moves.trans lost.1.1)
  obtain ⟨⟨further, looked⟩, late⟩ := ended
  have before := moves.trans further
  cases page? with
  | some page =>
    have roomy : Roomy txn q page r := looked.2
    exact .roomy before roomy.here
  | none =>
    have laid : Ends (fun _ t => t.fills file.volume < r.storage.fills file.volume ∨
          (0 < r.storage.pageSize file.volume → r.storage.pages file.volume < UInt32.size →
            r.storage.Extended t file.volume
              (List.replicate (r.storage.pageSize file.volume) 0))) (fun _ => True)
        (file.allocate r.storage) :=
      (Storage.allocateFills r.storage file.volume).andThen (fun _ _ made => made) (fun _ => id)
    refine Ends.inPart (((HeapFile.allocateEnds file r.storage).both laid).mono
      (fun page storage made => ?_) (fun storage seen => before.trans (.aside trivial seen.1)))
    obtain ⟨⟨rfl, enlarged⟩, laid⟩ := made
    have fewer : r.storage.fills file.volume ≤ p.storage.fills file.volume :=
      Nat.le_trans (late file.volume) (early file.volume)
    rw [before.observed.pages]
    exact .fresh before enlarged (laid.imp_left fun less => Nat.lt_of_lt_of_le less fewer)

structure InVain (file : HeapFile) (txn : TxnId) (p : Pool) (page : PageId) (q : Pool) : Prop where
  last : page = ⟨file.table, .ofNat (p.storage.pages file.volume)⟩
  full : ∃ frame, q.resident.get? page = some frame ∧ frame.page.hasRoom = false ∧
    p.storage.Extended q.storage file.volume frame.page.image
  owned : q.locks.access? txn page = some .exclusive
  fewer : q.storage.fills file.volume < p.storage.fills file.volume

/- The page that the file has grown by is read as it stands on the volume. -/
theorem ownFresh {storage : Storage} {frame : Frame} (housed : p.Housed) (known : p.Knows file)
    (few : p.storage.pages file.volume < UInt32.size)
    (enlarged : p.storage.Enlarged storage file.volume)
    (moves : Moves (Act.probes (some txn)) {p with storage} q)
    (present : q.resident.get? ⟨file.table, .ofNat (p.storage.pages file.volume)⟩ = some frame) :
    p.storage.Extended q.storage file.volume frame.page.image ∧
      ∀ image, p.storage.Extended storage file.volume image → frame.page.image = image := by
  have positive : 0 < p.storage.pageSize file.volume :=
    housed.sized _ _ known ▸ file.layout.sizePositive
  have read {image : Bytes} (extended : p.storage.Extended storage file.volume image) :
      frame.page.image = image :=
    (housed.freshCopies known few extended).moves moves _ (.inr ⟨frame, present, rfl⟩)
  obtain ⟨image, extended, _⟩ := enlarged.fresh positive few
  refine ⟨?_, fun _ => read⟩
  rw [read extended]
  exact extended.observed moves.observed

theorem fillSettles {home : PageId} {frame : Frame} (housed : q.Housed)
    (before : Moves Act.orderly p q)
    (present : q.resident.get? home = some frame)
    (owns : q.locks.access? txn home = some .exclusive) :
    Ends (fun x r => Moves Act.orderly p r ∧ ∀ page, x = .vain page → InVain file txn p page r)
      (Moves Act.orderly p)
      ((HeapFile.fill txn data frame >>= fun x => pure (HeapFile.Passed.stored x)) q) := by
  have own (rid : Rid) : Act.orderly (.fill txn rid data) := trivial
  exact (fillEnds housed data present owns).andThen
    (fun x _ filled => ⟨before.trans (.one (own x.1) filled.1), nofun⟩)
    (fun _ same => same ▸ before)

theorem fullInVain {a : Pool} {storage : Storage} {frame : Frame} (housed : p.Housed)
    (known : p.Knows file) (few : p.storage.pages file.volume < UInt32.size)
    (early : Moves (Act.probes (some txn)) p a)
    (enlarged : a.storage.Enlarged storage file.volume)
    (laid : storage.fills file.volume < p.storage.fills file.volume ∨
      (0 < a.storage.pageSize file.volume → a.storage.pages file.volume < UInt32.size →
        a.storage.Extended storage file.volume
          (List.replicate (a.storage.pageSize file.volume) 0)))
    (moves : Moves (Act.probes (some txn)) {a with storage} q)
    (spent : q.storage.fills file.volume ≤ storage.fills file.volume)
    (present : q.resident.get? ⟨file.table, .ofNat (p.storage.pages file.volume)⟩ = some frame)
    (owns : q.locks.access? txn ⟨file.table, .ofNat (p.storage.pages file.volume)⟩ =
      some .exclusive)
    (full : ¬ frame.page.hasRoom = true) :
    InVain file txn p ⟨file.table, .ofNat (p.storage.pages file.volume)⟩ q := by
  have there := housed.moves early
  have still : a.Knows file := known.later early.grew
  have count : a.storage.pages file.volume = p.storage.pages file.volume :=
    early.observed.pages file.volume
  have size : a.storage.pageSize file.volume = file.layout.pageSize := there.sized _ _ still
  have grows : Move (.extend file.table) a {a with storage} := .extend still enlarged
  obtain ⟨grown, fresh⟩ := ownFresh there still (count ▸ few) enlarged moves (count ▸ present)
  refine ⟨rfl, ⟨frame, present, Bool.eq_false_of_not_eq_true full,
    early.observed.extended grown⟩, owns, ?_⟩
  rcases laid with less | blank
  · exact Nat.lt_of_le_of_lt spent less
  · have zeroes := fresh _ (blank (size ▸ file.layout.sizePositive) (count ▸ few))
    have later := known.later (early.grew.trans (grows.grew.trans moves.grew))
    obtain ⟨its, found, _, layout, _⟩ := ((there.move grows).moves moves).keeps _ frame present
    obtain rfl : file = its := Option.some.inj (later.symm.trans found)
    rw [size, ← layout] at zeroes
    exact absurd (Page.blankRoomy zeroes) full

theorem passSettles (housed : p.Housed) (known : p.Knows file)
    (few : p.storage.pages file.volume < UInt32.size) :
    Ends (fun x q => Moves Act.orderly p q ∧ ∀ page, x = .vain page → InVain file txn p page q)
      (Moves Act.orderly p) ((file.pass txn data).settled p) := by
  have probes {p q : Pool} (moves : Moves (Act.probes (some txn)) p q) : Moves Act.orderly p q :=
    moves.mono fun _ => Act.probesOrderly
  simp only [HeapFile.pass, Activity.settledBind, Activity.settledIte, Activity.settledLift,
    Activity.settledPure]
  refine (pageWithRoomOffers housed).andThen (fun home q offers => ?_)
    (fun _ lost => probes lost)
  cases offers with
  | roomy moves here =>
    obtain ⟨frame, present, room⟩ := here
    have there := housed.moves moves
    refine ((getPageSettles there txn home .exclusive).both (getPagePresent present)).andThen
      (fun other r got => ?_) (fun _ lost => probes (moves.trans lost.1))
    obtain ⟨⟨further, here, owns⟩, rfl, -⟩ := got
    rw [ite_self] at owns
    rw [if_pos room]
    exact fillSettles (there.moves further) (probes (moves.trans further)) here owns
  | @fresh a storage early enlarged laid =>
    have grows : Move (.extend file.table) a {a with storage} :=
      .extend (known.later early.grew) enlarged
    have adds : Act.orderly (.extend file.table) := trivial
    have before : Moves Act.orderly p {a with storage} := (probes early).trans (.one adds grows)
    have larger := (housed.moves early).move grows
    refine (((getPageReaches larger txn _ .exclusive).settled larger).both
      (((spendsUpkeep (some txn)).pieces.getPage _ .exclusive).settled _)).andThen
      (fun frame r got => ?_) (fun _ lost => before.trans
        (probes (lost.1.mono fun _ own => Act.readsProbes own.1)))
    obtain ⟨⟨_, moves, rfl, present, owns⟩, spent⟩ := got
    rw [ite_self] at owns
    replace moves := moves.mono fun _ own => Act.readsProbes own.1
    have after := before.trans (probes moves)
    split
    · exact fillSettles (larger.moves moves) after present owns
    · rename_i full
      refine ⟨after, fun page same => ?_⟩
      cases same
      exact fullInVain housed known few early enlarged laid moves (spent file.volume) present owns
        full

/- The loop. -/

structure Lasts (file : HeapFile) (k : Nat) (p : Pool) : Prop where
  housed : p.Housed
  known : p.Knows file
  few : p.storage.pages file.volume + k < UInt32.size
  laid : p.storage.fills file.volume ≤ k

variable {k : Nat} {page : PageId} {pages : List PageId}

theorem Lasts.passes (lasts : Lasts file k p) (txn : TxnId) (data : Bytes) :
    Ends (fun x q => Moves Act.orderly p q ∧ ∀ page, x = .vain page → InVain file txn p page q)
      (Moves Act.orderly p) ((file.pass txn data).settled p) :=
  passSettles lasts.housed lasts.known (Nat.lt_of_le_of_lt (by omega) lasts.few)

theorem Lasts.inVain (lasts : Lasts file k p)
    (vain : (file.pass txn data).settled p = .ok (.vain page) q) :
    Moves Act.orderly p q ∧ InVain file txn p page q := by
  have passed := lasts.passes txn data
  rw [vain] at passed
  exact ⟨passed.1, passed.2 page rfl⟩

/- Every pass in vain uses up a page that was laid up. -/
theorem Lasts.next (lasts : Lasts file k p)
    (vain : (file.pass txn data).settled p = .ok (.vain page) q) :
    ∃ j, k = j + 1 ∧ Lasts file j q := by
  obtain ⟨moves, told⟩ := lasts.inVain vain
  obtain ⟨_, _, _, grown⟩ := told.full
  have laid := Nat.lt_of_lt_of_le told.fewer lasts.laid
  cases k with
  | zero => cases laid
  | succ j =>
    have few := lasts.few
    refine ⟨j, rfl, lasts.housed.moves moves, lasts.known.later moves.grew, ?_,
      Nat.le_of_lt_succ laid⟩
    rw [grown.pages]
    omega

theorem Vainly.lasts (vainly : Vainly file txn data p pages q) (lasts : Lasts file k p) :
    ∃ j, k = j + pages.length ∧ Lasts file j q ∧ Moves Act.orderly p q ∧
      ∀ page ∈ pages, q.locks.access? txn page = some .exclusive := by
  induction vainly generalizing k with
  | none => exact ⟨k, rfl, lasts, .refl, nofun⟩
  | @again _ m _ page pages vain later ih =>
    obtain ⟨early, told⟩ := lasts.inVain vain
    obtain ⟨j, rfl, next⟩ := lasts.next vain
    obtain ⟨i, rfl, last, late, owned⟩ := ih next
    refine ⟨i, rfl, last, early.trans late, List.forall_mem_cons.mpr ⟨?_, owned⟩⟩
    exact late.keepsOwner (fun _ => id) txn page told.owned

theorem Lasts.ends (lasts : Lasts file k p) (txn : TxnId) (data : Bytes) :
    ∃ pages q result, Vainly file txn data p pages q ∧ Last file txn data q result := by
  induction k using Nat.strongRecOn generalizing p with
  | ind k ih =>
    cases passed : (file.pass txn data).settled p with
    | error e q => exact ⟨[], p, _, .none, .failed passed⟩
    | ok x q =>
      cases x with
      | stored x => exact ⟨[], p, _, .none, .stored passed⟩
      | vain page =>
        obtain ⟨j, rfl, next⟩ := lasts.next passed
        obtain ⟨pages, r, result, vainly, last⟩ := ih j (Nat.lt_succ_self j) next
        exact ⟨page :: pages, r, result, .again passed vainly, last⟩

theorem Lasts.keeps {result : EStateM.Result Error Pool (Rid × Frame)} (lasts : Lasts file k p)
    (last : Last file txn data p result) (page : PageId)
    (owns : p.locks.access? txn page = some .exclusive) :
    Ends (fun _ q => q.locks.access? txn page = some .exclusive)
      (fun q => q.locks.access? txn page = some .exclusive) result := by
  have passed := lasts.passes txn data
  cases last with
  | stored stored =>
    rw [stored] at passed
    exact passed.1.keepsOwner (fun _ => id) txn page owns
  | failed failed =>
    rw [failed] at passed
    exact Moves.keepsOwner (fun _ => id) passed txn page owns

end Pool
end PagedHeap
