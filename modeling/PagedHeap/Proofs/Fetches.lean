import PagedHeap.Proofs.SureCalls
import PagedHeap.Proofs.Upkeep
import PagedHeap.Proofs.WriteFree

/-! What comes of asking for a page, to the last case: the lock is looked at first, then the
cache, the room in it, the table and the volume. Whatever fails, what went before stays done. -/
namespace PagedHeap

namespace Storage

/- All pages in memory have the page size of their volume. -/
def Shaped (s : Storage) : Prop :=
  ∀ v pages, (s.volume v).medium = .memory pages → ∀ image ∈ pages, image.length = s.pageSize v

theorem Shaped.whole {s : Storage} {v : VolumeId} {page : UInt32} {image : Bytes}
    (shaped : s.Shaped) (found : s.image v page = .ok image) : image.length = s.pageSize v := by
  unfold Storage.image at found
  cases medium : (s.volume v).medium with
  | memory pages =>
    simp only [medium] at found
    split at found
    · rename_i there
      cases found
      exact shaped v pages medium _ (List.mem_of_getElem? there)
    · cases found
  | file name =>
    simp only [medium] at found
    split at found
    · split at found
      · rename_i whole
        cases found
        exact whole
      · cases found
    · cases found

structure Shapes (s t : Storage) : Prop where
  size : ∀ v, t.pageSize v = s.pageSize v
  shaped : s.Shaped → t.Shaped

namespace Shapes

variable {s t u : Storage} {v : VolumeId} {image : Bytes}

instance : Std.Refl Shapes := ⟨fun _ => ⟨fun _ => rfl, id⟩⟩

instance : Trans Shapes Shapes Shapes :=
  ⟨fun first second =>
    ⟨fun v => (second.size v).trans (first.size v), second.shaped ∘ first.shaped⟩⟩

theorem observed (seen : Observed s t) : Shapes s t := by
  refine ⟨seen.size, fun shaped v pages medium image there => ?_⟩
  rw [seen.medium] at medium
  exact (shaped v pages medium image there).trans (seen.size v).symm

theorem memory {old pages : List Bytes} (medium : (s.volume v).medium = .memory old)
    (fits : ∀ image ∈ pages, image ∈ old ∨ image.length = s.pageSize v) :
    Shapes s (s.update v ({· with medium := .memory pages})) := by
  have size (w : VolumeId) :
      (s.update v ({· with medium := .memory pages})).pageSize w = s.pageSize w := by
    simp only [pageSize, volumeUpdate]
    split <;> rfl
  refine ⟨size, fun shaped w images there image inside => ?_⟩
  rw [size]
  rw [volumeUpdate] at there
  split at there
  · rename_i own
    obtain ⟨rfl, -⟩ := own
    cases there
    exact (fits image inside).elim (shaped v old medium image) id
  · exact shaped w images there image inside

theorem extended (fits : image.length = s.pageSize v) : Shapes s (s.extend v image).2 := by
  unfold extend
  cases medium : (s.volume v).medium with
  | memory pages =>
    refine memory medium fun other there => (List.mem_append.mp there).imp_right fun last => ?_
    exact (List.mem_singleton.mp last) ▸ fits
  | file name => exact ⟨fun _ => rfl, id⟩

theorem stored {page : UInt32} (fits : image.length = s.pageSize v)
    (stored : s.store v page image = .ok t) : Shapes s t := by
  unfold store at stored
  cases medium : (s.volume v).medium with
  | memory pages =>
    simp only [medium] at stored
    split at stored
    · cases stored
      refine memory medium fun other there => ?_
      exact (List.mem_or_eq_of_mem_set there).imp_right fun new => (congrArg _ new).trans fits
    · cases stored
  | file name =>
    simp only [medium] at stored
    split at stored
    · cases stored
      exact ⟨fun _ => rfl, id⟩
    · cases stored

end Shapes

theorem shapesUpkeep : Upkeep Shapes where
  logs v call _ s := .observed (logEnds s v call)
  meets v point page s := (metEnds s v point page).mono (fun _ _ met => .observed met.1)
    fun _ none => none.elim
  grows _ _ _ := .extended List.length_replicate

theorem writeShapes (v : VolumeId) (page : UInt32) (image : Bytes) :
    Steps Shapes (write v page image) := by
  intro s
  refine (logEnds s v (.write page)).andThen (fun _ a logged => ?_) (fun _ none => none.elim)
  refine (passEnds a v .write (some page)).andThen (fun _ b passed => ?_)
    (fun _ failed => .observed (logged.trans failed.1))
  have seen : Shapes s b := .observed (logged.trans passed)
  have fits : Ends (fun _ t => t = b ∧ image.length = b.pageSize v) (Shapes s)
      (demand Storage (b.checkLength v image.length) b) := by
    refine Ends.demand (fun _ checked => ⟨rfl, ?_⟩) seen
    unfold checkLength at checked
    split at checked
    · assumption
    · cases checked
  refine fits.andThen (fun _ t here => ?_) (fun _ failed => failed)
  obtain ⟨rfl, whole⟩ := here
  have kept : Ends (fun u _ => Shapes s u) (Shapes s) (served Storage (t.store v page image) t) :=
    .served (fun u stored => Trans.trans seen (Shapes.stored whole stored)) seen
  exact kept.andThen (fun _ _ same => same) (fun _ failed => failed)

theorem readFails {s t : Storage} {v : VolumeId} {page : UInt32} {length : Nat} {e : Error}
    (size : length = s.pageSize v) (failed : read v page length s = .error e t) :
    ∃ cause, e = .storage cause := by
  have logged : ∃ a, log v (.read page) s = .ok () a ∧ Observed s a :=
    ⟨_, rfl, logEnds s v (.read page)⟩
  obtain ⟨a, logged, seen⟩ := logged
  obtain early | ⟨_, b, passed, rest⟩ := errorBind ((okThen logged _).symm.trans failed)
  · obtain met | ⟨cause, b, met, rest⟩ := errorBind early
    · have none := metEnds a v .read (some page)
      rw [met] at none
      exact none.elim
    · cases cause <;> cases rest
      exact ⟨_, rfl⟩
  · have later := passEnds a v .read (some page)
    rw [passed] at later
    have whole : b.checkLength v length = .ok () :=
      if_pos (size.trans ((seen.trans later).size v).symm)
    change (demand Storage (b.checkLength v length) >>= fun _ =>
      get >>= fun b => served Storage (b.image v page)) b = _ at rest
    rw [whole] at rest
    change served Storage (b.image v page) b = _ at rest
    cases found : b.image v page <;> rw [found] at rest <;> cases rest
    exact ⟨_, rfl⟩

end Storage

namespace HeapFile

theorem readPageCases {f : HeapFile} {s : Storage} {page : PageId} (own : page.table = f.table)
    (sized : s.pageSize f.volume = f.layout.pageSize) (shaped : s.Shaped) :
    (∃ copy t, Storage.read f.volume page.number f.layout.pageSize s = .ok copy.image t ∧
      f.readPage page s = .ok copy t ∧ copy.id = page ∧ copy.isDirty = false ∧
      s.image f.volume page.number = .ok copy.image) ∨
    ∃ cause t, Storage.read f.volume page.number f.layout.pageSize s = .error (.storage cause) t ∧
      f.readPage page s = .error (.storage cause) t := by
  have checked : demand Storage (f.checkTable page) s = .ok () s := by
    rw [checkTable, if_pos own]
    rfl
  have opened : f.readPage page s = (Storage.read f.volume page.number f.layout.pageSize >>=
      fun image => demand Storage (Page.ofImage page f.layout image)) s := okThen checked _
  rw [opened]
  cases done : Storage.read f.volume page.number f.layout.pageSize s with
  | ok image t =>
    obtain ⟨found, -⟩ := Storage.readSource done
    have whole : image.length = f.layout.pageSize := (shaped.whole found).trans sized
    refine .inl ⟨⟨page, f.layout, image, none, whole⟩, t, rfl, (okThen done _).trans ?_, rfl, rfl,
      found⟩
    rw [Page.ofImage, dif_pos whole]
    rfl
  | error e t =>
    obtain ⟨cause, rfl⟩ := Storage.readFails sized.symm done
    exact .inr ⟨cause, t, rfl, errorThen done _⟩

end HeapFile

namespace Pool

variable {p q : Pool} {page : PageId} {wanted : Lock}

/- What the pool is like at any time, as far as a look at a page depends on it. -/

structure Proper (p : Pool) : Prop where
  named : ∀ table file, p.tables.get? table = some file → file.table = table
  sized : ∀ table file, p.tables.get? table = some file →
    p.storage.pageSize file.volume = file.layout.pageSize
  shaped : p.storage.Shaped
  unlatched : p.latched = []
  coherent : p.locks.Coherent

theorem Proper.below (proper : p.Proper) {storage : Storage} (shapes : p.storage.Shapes storage) :
    Proper {p with storage} where
  named := proper.named
  sized table file found := (shapes.size file.volume).trans (proper.sized table file found)
  shaped := shapes.shaped proper.shaped
  unlatched := proper.unlatched
  coherent := proper.coherent

def StaysProper (p q : Pool) : Prop := p.Proper → q.Proper

instance : Std.Refl StaysProper := ⟨fun _ => id⟩

instance : Trans StaysProper StaysProper StaysProper := ⟨fun first second => second ∘ first⟩

theorem properBelow (p : Pool) (storage : Storage) (shapes : p.storage.Shapes storage) :
    StaysProper p {p with storage} := fun proper => proper.below shapes

theorem properUpkeep (who : Option TxnId) : FullUpkeep who StaysProper where
  toUpkeep := .ofStorage Storage.shapesUpkeep properBelow
    (fun _ _ _ _ _ proper => ⟨proper.named, proper.sized, proper.shaped, proper.unlatched,
      proper.coherent⟩)
    (fun _ step _ proper => ⟨proper.named, proper.sized, proper.shaped, proper.unlatched,
      proper.coherent.perform step⟩)
  writes v page image := risen properBelow (Storage.writeShapes v page image)

/- Anything may be asked for at any time and by anybody, on whatever volumes; but the layout
of a new table is made for the pages of its volume. -/
def busy : Service Pool PoolCall Unit where
  txn? _ := none
  work := PoolCall.work
  Admits
    | .register file, p => p.storage.pageSize file.volume = file.layout.pageSize
    | _, _ => True

theorem registerProper {file : HeapFile}
    (sized : p.storage.pageSize file.volume = file.layout.pageSize) :
    Ends (fun _ q => StaysProper p q) (StaysProper p) (register file p) := by
  rw [registerCases]
  split
  · exact id
  intro proper
  refine ⟨fun table other found => ?_, fun table other found => ?_, proper.shaped,
    proper.unlatched, proper.coherent⟩
  · rw [KeyMap.getInsert] at found
    split at found
    · rename_i same
      cases found
      exact same
    · exact proper.named table other found
  · exact (KeyMap.insertSource found).elim (fun new => new ▸ sized) (proper.sized table other)

theorem lawOfProper : busy.Law (fun _ p => p.Proper) (fun _ => StaysProper) (fun _ _ _ => True)
    (fun _ p _ q => StaysProper p q) :=
  .kept (fun proper stays => stays proper) fun call p _ admitted =>
    (properUpkeep _).pieces.call call p fun file new => by
      subst new
      exact registerProper admitted

theorem newProper (config : Config) {storage : Storage} (shaped : storage.Shaped)
    (draws : List Nat) : Proper {ofConfig config storage with draws} where
  named := nofun
  sized := nofun
  shaped := shaped
  unlatched := rfl
  coherent := LockTable.emptyCoherent

/- Room in the cache. -/

/- The cache is at capacity, and every page in it is changed or somebody's own. -/
structure Packed (p : Pool) : Prop where
  full : p.capacity ≤ p.resident.size
  stay : ∀ page frame, p.resident.get? page = some frame →
    frame.page.isDirty = true ∨ ∃ txn, p.locks.access? txn page = some .exclusive

theorem Proper.victimIff (proper : p.Proper) {page : PageId} {frame : Frame} :
    p.isVictim page frame = true ↔
      frame.page.isDirty = false ∧ ∀ txn, p.locks.access? txn page ≠ some .exclusive := by
  have owned : p.locks.isOwned page = false ↔
      ∀ txn, p.locks.access? txn page ≠ some .exclusive := by
    rw [← Bool.not_eq_true, proper.coherent.ownedIff, not_exists]
  simp only [isVictim, proper.unlatched, Bool.and_eq_true, Bool.not_eq_true', owned,
    List.contains_nil, and_true]
  exact and_comm

inductive MadeRoom (p : Pool) : Pool → Prop where
  | spacious (space : p.resident.size < p.capacity) : MadeRoom p p
  | evicted {page : PageId} {frame : Frame} (present : p.resident.get? page = some frame)
      (clean : frame.page.isDirty = false)
      (free : ∀ txn, p.locks.access? txn page ≠ some .exclusive) :
      MadeRoom p (drop {p with draws := p.draws.tail} page)

theorem Proper.makeRoomCases (proper : p.Proper) :
    (p.Packed ∧ makeRoom p = .error (.exhausted p.capacity) p) ∨
      ¬ p.Packed ∧ ∃ q, makeRoom p = .ok () q ∧ MadeRoom p q := by
  have choice : makeRoom p = (if p.capacity ≤ p.resident.size then evict else pure ()) p := rfl
  rw [choice]
  by_cases full : p.capacity ≤ p.resident.size
  · rw [if_pos full]
    cases found : p.victims with
    | nil =>
      refine .inl ⟨⟨full, fun page frame present => ?_⟩, ?_⟩
      · refine Classical.byContradiction fun leaves => ?_
        rw [not_or, Bool.not_eq_true, not_exists] at leaves
        have victim := memVictims.mpr ⟨frame, present, proper.victimIff.mpr leaves⟩
        rw [found] at victim
        cases victim
      · unfold evict
        rw [getThen, found]
        rfl
    | cons first rest =>
      obtain ⟨page, frame, present, leaves, left⟩ := evictChosen found
      obtain ⟨clean, free⟩ := proper.victimIff.mp leaves
      refine .inr ⟨fun packed => ?_, _, left, .evicted present clean free⟩
      obtain dirty | ⟨txn, owns⟩ := packed.stay page frame present
      · rw [clean] at dirty
        cases dirty
      · exact free txn owns
  · rw [if_neg full]
    exact .inr ⟨fun packed => full packed.full, p, rfl, .spacious (Nat.lt_of_not_le full)⟩

def leftBy {α : Type} : EStateM.Result Error Pool α → Pool
  | .ok _ q => q
  | .error _ q => q

/- At most one page leaves the cache, one that is neither changed nor anybody's own. -/
structure Thinned (p q : Pool) : Prop where
  stays : ∀ page frame, p.resident.get? page = some frame →
    q.resident.get? page = some frame ∨ q.resident.get? page = none
  single : ∀ a b, p.isResident a → p.isResident b → q.resident.get? a = none →
    q.resident.get? b = none → a = b
  spare : ∀ page frame, p.resident.get? page = some frame → q.resident.get? page = none →
    frame.page.isDirty = false ∧ ∀ txn, p.locks.access? txn page ≠ some .exclusive

namespace Thinned

theorem same (resident : q.resident = p.resident) : Thinned p q where
  stays _ _ present := .inl (resident ▸ present)
  single a b there _ gone _ := by
    rw [resident] at gone
    simp [isResident, KeyMap.contains, gone] at there
  spare page frame present gone := by
    rw [resident, present] at gone
    cases gone

theorem alike (thinned : Thinned p q) {r : Pool} (same : r.resident = q.resident) :
    Thinned p r := by
  constructor <;> rw [same]
  · exact thinned.stays
  · exact thinned.single
  · exact thinned.spare

theorem enter (thinned : Thinned p q) {r : Pool} {frame : Frame}
    (absent : p.resident.get? page = none)
    (resident : r.resident = q.resident.insert page frame) : Thinned p r := by
  have away {other : PageId} (there : p.isResident other) :
      r.resident.get? other = q.resident.get? other := by
    rw [resident, KeyMap.getInsert, if_neg]
    rintro rfl
    simp [isResident, KeyMap.contains, absent] at there
  have inside {other : PageId} {frame : Frame} (present : p.resident.get? other = some frame) :
      p.isResident other := by simp [isResident, KeyMap.contains, present]
  exact {
    stays := fun other frame present => away (inside present) ▸ thinned.stays other frame present
    single := fun a b inA inB goneA goneB =>
      thinned.single a b inA inB (away inA ▸ goneA) (away inB ▸ goneB)
    spare := fun other frame present gone =>
      thinned.spare other frame present (away (inside present) ▸ gone) }

theorem dirty (thinned : Thinned p q) {frame : Frame} (present : p.resident.get? page = some frame)
    (dirty : frame.page.isDirty = true) : q.resident.get? page = some frame :=
  (thinned.stays page frame present).resolve_right fun gone => by
    rw [(thinned.spare page frame present gone).1] at dirty
    cases dirty

end Thinned

namespace MadeRoom

theorem unchanged (made : MadeRoom p q) : q.tables = p.tables ∧ q.storage = p.storage ∧
    q.locks = p.locks ∧ q.latched = p.latched := by
  cases made with
  | spacious => exact ⟨rfl, rfl, rfl, rfl⟩
  | evicted present =>
    unfold drop
    split <;> exact ⟨rfl, rfl, rfl, rfl⟩

theorem thinned (made : MadeRoom p q) : Thinned p q := by
  cases made with
  | spacious => exact .same rfl
  | @evicted page frame present clean free =>
    have left (other : PageId) : (drop {p with draws := p.draws.tail} page).resident.get? other =
        if page = other then none else p.resident.get? other := residentDrop ..
    have gone {other : PageId} (there : p.isResident other)
        (missing : (drop {p with draws := p.draws.tail} page).resident.get? other = none) :
        page = other := by
      rw [left] at missing
      split at missing
      · assumption
      · simp [isResident, KeyMap.contains, missing] at there
    refine ⟨fun other held there => ?_, fun a b inA inB goneA goneB => ?_,
      fun other held there missing => ?_⟩
    · rw [left]
      split
      · exact .inr rfl
      · exact .inl there
    · exact (gone inA goneA).symm.trans (gone inB goneB)
    · obtain rfl := gone (by simp [isResident, KeyMap.contains, there]) missing
      rw [present] at there
      cases there
      exact ⟨clean, free⟩

end MadeRoom

/- Looking for a page, once it is locked. -/

inductive Fetched (page : PageId) (p : Pool) : EStateM.Result Error Pool Frame → Prop where
  | resident {frame : Frame} (present : p.resident.get? page = some frame) :
      Fetched page p (.ok frame p)
  | exhausted (absent : p.resident.get? page = none) (packed : p.Packed) :
      Fetched page p (.error (.exhausted p.capacity) p)
  | unknown {q : Pool} (absent : p.resident.get? page = none) (spare : ¬ p.Packed)
      (made : MadeRoom p q) (missing : p.tables.get? page.table = none) :
      Fetched page p (.error (.invalid (.unknownTable page.table)) q)
  | unread {q : Pool} {file : HeapFile} {cause : IoError} {storage : Storage}
      (absent : p.resident.get? page = none) (spare : ¬ p.Packed) (made : MadeRoom p q)
      (found : p.tables.get? page.table = some file)
      (failed : Storage.read file.volume page.number file.layout.pageSize p.storage =
        .error (.storage cause) storage) :
      Fetched page p (.error (.storage cause) {q with storage})
  | loaded {q : Pool} {file : HeapFile} {copy : Page} {storage : Storage}
      (absent : p.resident.get? page = none) (spare : ¬ p.Packed) (made : MadeRoom p q)
      (found : p.tables.get? page.table = some file)
      (read : Storage.read file.volume page.number file.layout.pageSize p.storage =
        .ok copy.image storage)
      (key : copy.id = page) (clean : copy.isDirty = false)
      (held : p.storage.image file.volume page.number = .ok copy.image) :
      Fetched page p (.ok ⟨q.nextFrame, copy⟩ {q with
        storage
        nextFrame := q.nextFrame + 1
        resident := q.resident.insert page ⟨q.nextFrame, copy⟩})

theorem fetchFetched (proper : p.Proper) (page : PageId) : Fetched page p (fetch page p) := by
  unfold fetch
  rw [getThen]
  cases absent : p.resident.get? page with
  | some frame => exact .resident absent
  | none =>
    change Fetched page p ((makeRoom >>= fun _ => table page.table >>= fun file =>
      onStorage (file.readPage page) >>= fun copy => newFrame copy >>= fun frame =>
        modify (fun p => {p with resident := p.resident.insert page frame}) >>= fun _ =>
          pure frame) p)
    obtain ⟨packed, none⟩ | ⟨spare, q, room, made⟩ := proper.makeRoomCases
    · rw [errorThen none]
      exact .exhausted absent packed
    · obtain ⟨tables, storage, -, -⟩ := made.unchanged
      rw [okThen room]
      cases found : p.tables.get? page.table with
      | none =>
        rw [errorThen (tableMissing (tables ▸ found))]
        exact .unknown absent spare made found
      | some file =>
        rw [okThen (tableFound (tables ▸ found))]
        have own : page.table = file.table := (proper.named _ _ found).symm
        obtain ⟨copy, later, read, copied, key, clean, held⟩ | ⟨cause, later, failed, lost⟩ :=
          HeapFile.readPageCases own (proper.sized _ _ found) proper.shaped
        · have below : onStorage (file.readPage page) q = .ok copy {q with storage := later} := by
            change storagePart.outcome q (file.readPage page q.storage) = _
            rw [storage, copied]
            rfl
          rw [okThen below]
          exact .loaded (q := q) absent spare made found read key clean held
        · have below : onStorage (file.readPage page) q =
              .error (.storage cause) {q with storage := later} := by
            change storagePart.outcome q (file.readPage page q.storage) = _
            rw [storage, lost]
            rfl
          rw [errorThen below]
          exact .unread (q := q) absent spare made found failed

namespace Fetched

variable {r : EStateM.Result Error Pool Frame}

/- No two of the cases meet. -/

theorem whenResident (fetched : Fetched page p r) {frame : Frame}
    (present : p.resident.get? page = some frame) : r = .ok frame p := by
  cases fetched <;> simp_all

theorem whenPacked (fetched : Fetched page p r) (absent : p.resident.get? page = none)
    (packed : p.Packed) : r = .error (.exhausted p.capacity) p := by
  cases fetched <;> simp_all

theorem whenUnknown (fetched : Fetched page p r) (absent : p.resident.get? page = none)
    (spare : ¬ p.Packed) (missing : p.tables.get? page.table = none) :
    ∃ q, r = .error (.invalid (.unknownTable page.table)) q := by
  cases fetched <;> simp_all

theorem whenUnread (fetched : Fetched page p r) (absent : p.resident.get? page = none)
    (spare : ¬ p.Packed) {file : HeapFile} (found : p.tables.get? page.table = some file)
    {cause : IoError} {storage : Storage}
    (failed : Storage.read file.volume page.number file.layout.pageSize p.storage =
      .error (.storage cause) storage) : ∃ q, r = .error (.storage cause) q := by
  cases fetched <;> simp_all

theorem whenRead (fetched : Fetched page p r) (absent : p.resident.get? page = none)
    (spare : ¬ p.Packed) {file : HeapFile} (found : p.tables.get? page.table = some file)
    {image : Bytes} {storage : Storage}
    (read : Storage.read file.volume page.number file.layout.pageSize p.storage =
      .ok image storage) :
    ∃ frame q, r = .ok frame q ∧ frame.page.id = page ∧ frame.page.image = image ∧
      frame.page.isDirty = false ∧ q.resident.get? page = some frame ∧
      p.storage.image file.volume page.number = .ok image := by
  cases fetched with
  | loaded _ _ _ known had key clean held =>
    cases found.symm.trans known
    obtain ⟨rfl, -⟩ := EStateM.Result.ok.inj (read.symm.trans had)
    exact ⟨_, _, rfl, key, rfl, clean, (KeyMap.getInsert ..).trans (if_pos rfl), held⟩
  | _ => simp_all

end Fetched

theorem Fetched.thinned {r : EStateM.Result Error Pool Frame} (fetched : Fetched page p r) :
    Thinned p (leftBy r) := by
  cases fetched with
  | resident | exhausted => exact .same rfl
  | unknown _ _ made => exact made.thinned
  | unread _ _ made => exact made.thinned.alike rfl
  | loaded absent _ made => exact made.thinned.enter absent rfl

theorem Fetched.locks {r : EStateM.Result Error Pool Frame} (fetched : Fetched page p r) :
    (leftBy r).locks = p.locks := by
  cases fetched with
  | resident | exhausted => rfl
  | unknown _ _ made | unread _ _ made | loaded _ _ made => exact made.unchanged.2.2.1

/- The whole answer. -/

/- The page is not in the cache, and there is room for it or can be made. -/
structure Misses (wanted : Lock) (p : Pool) : Prop where
  absent : p.resident.get? wanted.page = none
  spare : ¬ p.Packed

/- What is answered to somebody whom no lock keeps from the page. -/
structure Served (wanted : Lock) (p : Pool) (r : EStateM.Result Error Pool Frame) : Prop where
  locked : ∃ l ∈ (leftBy r).locks.heldBy wanted.txn, l.serves wanted = true
  resident : ∀ frame, p.resident.get? wanted.page = some frame →
    ∃ q, r = .ok frame q ∧ q.resident = p.resident
  exhausted : (∃ q, r = .error (.exhausted p.capacity) q) ↔
    p.resident.get? wanted.page = none ∧ p.Packed
  packed : p.resident.get? wanted.page = none → p.Packed → (leftBy r).resident = p.resident
  unknown : (∃ q, r = .error (.invalid (.unknownTable wanted.page.table)) q) ↔
    Misses wanted p ∧ p.tables.get? wanted.page.table = none
  unread : ∀ cause, (∃ q, r = .error (.storage cause) q) ↔
    Misses wanted p ∧ ∃ file, p.tables.get? wanted.page.table = some file ∧
      ∃ storage, Storage.read file.volume wanted.page.number file.layout.pageSize p.storage =
        .error (.storage cause) storage
  loaded : Misses wanted p → ∀ file image storage,
    p.tables.get? wanted.page.table = some file →
    Storage.read file.volume wanted.page.number file.layout.pageSize p.storage =
      .ok image storage →
    ∃ frame q, r = .ok frame q ∧ frame.page.id = wanted.page ∧ frame.page.image = image ∧
      frame.page.isDirty = false ∧ q.resident.get? wanted.page = some frame ∧
      p.storage.image file.volume wanted.page.number = .ok image
  failures : ∀ e q, r = .error e q → e = .exhausted p.capacity ∨
    e = .invalid (.unknownTable wanted.page.table) ∨ ∃ cause, e = .storage cause

structure Exactly (wanted : Lock) (p : Pool) (r : EStateM.Result Error Pool Frame) : Prop where
  aborted : (∃ q, r = .error (.aborted wanted.txn wanted.page) q) ↔ p.locks.Hindered wanted
  untouched : p.locks.Hindered wanted → leftBy r = p
  served : ¬ p.locks.Hindered wanted → Served wanted p r
  thinned : Thinned p (leftBy r)
  dirty : ∀ page frame, p.resident.get? page = some frame → frame.page.isDirty = true →
    (leftBy r).resident.get? page = some frame
  unwritten : p.storage.Unwritten (leftBy r).storage

def granted (wanted : Lock) (p : Pool) : Pool := {p with locks := (p.locks.request wanted).2}

theorem Proper.granted (proper : p.Proper) (wanted : Lock) : (p.granted wanted).Proper :=
  (properUpkeep (some wanted.txn)).locks p (.request wanted) rfl proper

section granted

variable (proper : p.Proper) (free : ¬ p.locks.Hindered wanted)
include proper free

/- The lock that was just granted is on a page that is not in the cache. -/
theorem packedGranted (absent : p.resident.get? wanted.page = none) :
    (p.granted wanted).Packed ↔ p.Packed := by
  have asked := congrArg Prod.fst (proper.coherent.requestFree free)
  have same {page : PageId} {frame : Frame} (present : p.resident.get? page = some frame)
      (txn : TxnId) : (p.granted wanted).locks.access? txn page = p.locks.access? txn page := by
    refine (LockTable.accessRequest asked txn page).trans (if_neg ?_)
    rintro ⟨-, rfl⟩
    rw [absent] at present
    cases present
  constructor
  · rintro ⟨full, stay⟩
    refine ⟨full, fun page frame present => (stay page frame present).imp_right ?_⟩
    rintro ⟨txn, owns⟩
    exact ⟨txn, same present txn ▸ owns⟩
  · rintro ⟨full, stay⟩
    refine ⟨full, fun page frame present => (stay page frame present).imp_right ?_⟩
    rintro ⟨txn, owns⟩
    exact ⟨txn, (same present txn).trans owns⟩

theorem thinnedGranted (thinned : Thinned (p.granted wanted) q) : Thinned p q := by
  have asked := congrArg Prod.fst (proper.coherent.requestFree free)
  refine ⟨thinned.stays, thinned.single, fun page frame present gone => ?_⟩
  obtain ⟨clean, nobody⟩ := thinned.spare page frame present gone
  refine ⟨clean, fun txn owns => nobody txn ((LockTable.accessRequest asked txn page).trans ?_)⟩
  by_cases own : wanted.txn = txn ∧ wanted.page = page
  · obtain ⟨rfl, rfl⟩ := own
    rw [if_pos ⟨rfl, rfl⟩, if_pos owns]
  · rw [if_neg own]
    exact owns

theorem Fetched.served {r : EStateM.Result Error Pool Frame}
    (fetched : Fetched wanted.page (p.granted wanted) r) : Served wanted p r := by
  have packed := packedGranted proper free
  have locked : ∃ l ∈ (leftBy r).locks.heldBy wanted.txn, l.serves wanted = true := by
    rw [fetched.locks]
    exact (proper.coherent.served free).1
  have missed (absent : p.resident.get? wanted.page = none)
      (spare : ¬ (p.granted wanted).Packed) : Misses wanted p :=
    ⟨absent, fun full => spare ((packed absent).mpr full)⟩
  have spared (misses : Misses wanted p) : ¬ (p.granted wanted).Packed :=
    fun full => misses.spare ((packed misses.absent).mp full)
  refine ⟨locked, fun frame there => ⟨_, fetched.whenResident there, rfl⟩, ⟨?_, ?_⟩,
    fun absent full => ?_, ⟨?_, ?_⟩, fun cause => ⟨?_, ?_⟩, ?_, ?_⟩
  · rintro ⟨q, rfl⟩
    cases fetched with
    | exhausted absent full => exact ⟨absent, (packed absent).mp full⟩
  · rintro ⟨absent, full⟩
    exact ⟨_, fetched.whenPacked absent ((packed absent).mpr full)⟩
  · rw [fetched.whenPacked absent ((packed absent).mpr full)]
    rfl
  · rintro ⟨q, rfl⟩
    cases fetched with
    | unknown absent spare _ missing => exact ⟨missed absent spare, missing⟩
  · rintro ⟨misses, missing⟩
    exact fetched.whenUnknown misses.absent (spared misses) missing
  · rintro ⟨q, rfl⟩
    cases fetched with
    | unread absent spare _ found failed => exact ⟨missed absent spare, _, found, _, failed⟩
  · rintro ⟨misses, file, found, storage, failed⟩
    exact fetched.whenUnread misses.absent (spared misses) found failed
  · intro misses file image storage found read
    exact fetched.whenRead misses.absent (spared misses) found read
  · rintro e q rfl
    cases fetched with
    | exhausted => exact .inl rfl
    | unknown => exact .inr (.inl rfl)
    | unread => exact .inr (.inr ⟨_, rfl⟩)

end granted

theorem Proper.fetchExactly (proper : p.Proper) (free : ¬ p.locks.Hindered wanted) :
    Exactly wanted p (fetch wanted.page (p.granted wanted)) := by
  have fetched := fetchFetched (proper.granted wanted) wanted.page
  have unwritten := (unwrittenUpkeep none).fetch wanted.page (p.granted wanted)
  have served := fetched.served proper free
  have thinned := thinnedGranted proper free fetched.thinned
  generalize fetch wanted.page (p.granted wanted) = r at unwritten served thinned ⊢
  refine ⟨⟨?_, fun hindered => (free hindered).elim⟩, fun hindered => (free hindered).elim,
    fun _ => served, thinned, fun _ _ => thinned.dirty, ?_⟩
  · rintro ⟨q, rfl⟩
    obtain same | same | ⟨cause, same⟩ := served.failures _ _ rfl <;> cases same
  · cases r <;> exact unwritten

theorem Exactly.refused (hindered : p.locks.Hindered wanted) :
    Exactly wanted p (.error (.aborted wanted.txn wanted.page) p) where
  aborted := ⟨fun _ => hindered, fun _ => ⟨p, rfl⟩⟩
  untouched _ := rfl
  served free := (free hindered).elim
  thinned := .same rfl
  dirty _ _ present _ := present
  unwritten := .refl _

/-- A page is asked for at any time, by anybody, in whatever pool. If nobody else's lock is
in the way it is answered at once, and otherwise when the wait ends, whatever the pool has
come to until then: in either case exactly as the state of the pool tells at that moment. -/
theorem getPageExactly {config : Config} {storage : Storage} {draws : List Nat}
    (shaped : storage.Shaped) {h : History PoolCall Unit} {t : Traffic Pool PoolCall Unit}
    (run : busy.Run {ofConfig config storage with draws} h t) (wanted : Lock) :
    (¬ t.state.locks.Hindered wanted →
      ∃ r, getPage wanted.txn wanted.page wanted.access t.state = .ended r ∧
        Exactly wanted t.state r) ∧
    (t.state.locks.Hindered wanted →
      ∃ resume, getPage wanted.txn wanted.page wanted.access t.state = .waiting t.state resume ∧
        ∀ h' t', busy.Run {ofConfig config storage with draws} h' t' →
          ∃ r, resume t'.state = .ended r ∧ Exactly wanted t'.state r) := by
  have initial := newProper config shaped draws
  have proper {h : History PoolCall Unit} {t : Traffic Pool PoolCall Unit}
      (run : busy.Run {ofConfig config storage with draws} h t) : t.state.Proper :=
    (lawOfProper.run initial run).holds
  refine ⟨fun free => ⟨_, ?_, (proper run).fetchExactly free⟩, fun hindered => ?_⟩
  · change (lock wanted t.state).andThen _ = _
    rw [lockFree (proper run).coherent free]
    rfl
  · obtain ⟨resume, waits, ends⟩ := lockWaits (proper run).coherent hindered
    refine ⟨fun q => (resume q).andThen fun _ q => .ended (fetch wanted.page q), ?_,
      fun h' t' later => ?_⟩
    · change (lock wanted t.state).andThen _ = _
      rw [waits]
      rfl
    · obtain ⟨granted, refused⟩ := ends t'.state (proper later).coherent
      by_cases still : t'.state.locks.Hindered wanted
      · refine ⟨_, ?_, .refused still⟩
        change (resume t'.state).andThen _ = _
        rw [refused still]
        rfl
      · refine ⟨_, ?_, (proper later).fetchExactly still⟩
        change (resume t'.state).andThen _ = _
        rw [granted still]
        rfl

/- In a cache for one page, somebody has changed that page and not committed yet. Another
transaction gets the lock on the next page, and no room for it. -/

def sampleBusy : History PoolCall Unit × Traffic Pool PoolCall Unit :=
  busy.next (.insert 1 1 [7, 0, 0, 0]) (busy.next (.register sampleFile) ([], ⟨sampleStart, []⟩))

theorem sampleShaped : sampleStorage.Shaped := by
  intro v pages medium image there
  cases v with
  | zero =>
    cases medium
    cases List.mem_singleton.mp there
    rfl
  | succ v =>
    cases medium
    cases there

theorem sampleExhausted : sampleStorage.Shaped ∧ busy.Run sampleStart sampleBusy.1 sampleBusy.2 ∧
    ∃ q, getPage 2 ⟨1, 1⟩ .shared sampleBusy.2.state = .ended (.error (.exhausted 1) q) ∧
      ∃ l ∈ q.locks.heldBy 2, l.serves ⟨2, ⟨1, 1⟩, .shared⟩ = true := by
  have sized : busy.Admits (.register sampleFile) sampleStart := show _ = _ from rfl
  have run : busy.Run sampleStart sampleBusy.1 sampleBusy.2 :=
    .alone busy (.alone busy .start (.register sampleFile) sized rfl) (.insert 1 1 [7, 0, 0, 0])
      trivial rfl
  have proper := (lawOfProper.run (newProper _ sampleShaped _) run).holds
  have free : ¬ sampleBusy.2.state.locks.Hindered ⟨2, ⟨1, 1⟩, .shared⟩ := fun hindered =>
    absurd (congrArg Prod.fst (proper.coherent.requestHindered hindered)) (by decide)
  have packed : sampleBusy.2.state.Packed := by
    have dirty : ∀ e ∈ sampleBusy.2.state.resident.entries, e.2.page.isDirty = true := by
      decide
    exact ⟨by decide, fun page frame present =>
      .inl (dirty _ ((KeyMap.memEntries ..).mpr present))⟩
  obtain ⟨r, ended, exactly⟩ := (getPageExactly sampleShaped run ⟨2, ⟨1, 1⟩, .shared⟩).1 free
  have served := exactly.served free
  obtain ⟨q, rfl⟩ := served.exhausted.mpr ⟨by decide, packed⟩
  exact ⟨sampleShaped, run, q, ended, served.locked⟩

end Pool
end PagedHeap
