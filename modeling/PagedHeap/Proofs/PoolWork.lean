import PagedHeap.Proofs.PoolMoves

/-! The work on a pool, taken apart into moves. Work that fails has made its moves too,
and a wait for a lock makes none. -/
namespace PagedHeap

namespace Act

def looks : Act → Prop
  | .aside | .load _ | .evict _ => True
  | _ => False

def reads (who : Option TxnId) : Act → Prop
  | .take wanted => who = some wanted.txn
  | act => act.looks

def seeks (who : Option TxnId) : Act → Prop
  | .unprobe txn _ => who = some txn
  | .extend _ => True
  | act => act.reads who

def on (table : TableId) : Act → Prop
  | .take wanted => wanted.page.table = table
  | .unprobe _ page => page.table = table
  | .extend other => other = table
  | .fill _ rid _ | .clear _ rid => rid.page.table = table
  | act => act.looks

def readsOn (who : Option TxnId) (table : TableId) (act : Act) : Prop :=
  act.reads who ∧ act.on table

def seeksOn (who : Option TxnId) (table : TableId) (act : Act) : Prop :=
  act.seeks who ∧ act.on table

/- No lock on the pages is given back as one that was taken to look for a place. -/
def spares (held : PageId → Prop) : Act → Prop
  | .unprobe _ page => ¬ held page
  | _ => True

def placesOn (who : Option TxnId) (table : TableId) (held : PageId → Prop) (act : Act) : Prop :=
  act.seeksOn who table ∧ act.spares held

def saves (pages : List PageId) : Act → Prop
  | .aside => True
  | .save page => page ∈ pages
  | _ => False

def forgets (pages : List PageId) : Act → Prop
  | .forget page => page ∈ pages
  | _ => False

def unlocks (txn : TxnId) (page : PageId) : Act → Prop
  | .unprobe maker other | .giveBack maker other => maker = txn ∧ other = page
  | .giveAll maker => maker = txn
  | _ => False

def byOwn (who : Option TxnId) : Act → Prop
  | .take wanted => who = some wanted.txn
  | .unprobe txn _ | .giveBack txn _ | .giveAll txn => who = some txn
  | _ => True

def calm : Act → Prop
  | .fill .. | .clear .. | .register _ => False
  | _ => True

def calmOwn (who : Option TxnId) (act : Act) : Prop := act.byOwn who ∧ act.calm

theorem looksReads {who : Option TxnId} {act : Act} (h : act.looks) : act.reads who := by
  cases act <;> first | exact h | exact h.elim

theorem readsSeeks {who : Option TxnId} {act : Act} (h : act.reads who) : act.seeks who := by
  cases act <;> first | exact h | exact h.elim

theorem looksSeeks {who : Option TxnId} {act : Act} (h : act.looks) : act.seeks who :=
  readsSeeks (looksReads h)

theorem looksReadsOn {who : Option TxnId} {table : TableId} {act : Act} (h : act.looks) :
    act.readsOn who table := by
  cases act <;> first | exact ⟨h, h⟩ | exact h.elim

theorem readsSeeksOn {who : Option TxnId} {table : TableId} {act : Act}
    (h : act.readsOn who table) : act.seeksOn who table := ⟨readsSeeks h.1, h.2⟩

theorem readsPlacesOn {who : Option TxnId} {table : TableId} {held : PageId → Prop} {act : Act}
    (h : act.readsOn who table) : act.placesOn who table held := by
  refine ⟨readsSeeksOn h, ?_⟩
  cases act <;> first | exact h.1.elim | trivial

theorem looksPlacesOn {who : Option TxnId} {table : TableId} {held : PageId → Prop} {act : Act}
    (h : act.looks) : act.placesOn who table held := readsPlacesOn (looksReadsOn h)

theorem seeksOwn {who : Option TxnId} {act : Act} (h : act.seeks who) : act.byOwn who := by
  cases act <;> first | exact h | trivial

theorem savesOwn {who : Option TxnId} {pages : List PageId} {act : Act} (h : act.saves pages) :
    act.byOwn who := by
  cases act <;> first | exact h.elim | trivial

theorem savesMore {pages more : List PageId} (inside : ∀ page ∈ pages, page ∈ more) {act : Act}
    (h : act.saves pages) : act.saves more := by
  cases act <;> first | exact h.elim | exact inside _ h | trivial

theorem forgetsOwn {who : Option TxnId} {pages : List PageId} {act : Act} (h : act.forgets pages) :
    act.byOwn who := by
  cases act <;> first | exact h.elim | trivial

theorem forgetsMore {pages more : List PageId} (inside : ∀ page ∈ pages, page ∈ more) {act : Act}
    (h : act.forgets pages) : act.forgets more := by
  cases act <;> first | exact h.elim | exact inside _ h

theorem seeksCalm {who : Option TxnId} {act : Act} (h : act.seeks who) : act.calmOwn who := by
  refine ⟨seeksOwn h, ?_⟩
  cases act <;> first | exact h.elim | trivial

theorem savesCalm {who : Option TxnId} {pages : List PageId} {act : Act} (h : act.saves pages) :
    act.calmOwn who := by
  refine ⟨savesOwn h, ?_⟩
  cases act <;> first | exact h.elim | trivial

theorem forgetsCalm {who : Option TxnId} {pages : List PageId} {act : Act}
    (h : act.forgets pages) : act.calmOwn who := by
  refine ⟨forgetsOwn h, ?_⟩
  cases act <;> first | exact h.elim | trivial

end Act

namespace Pool

open Storage (Observed)

/- Instant work. -/

section instant

variable {p : Pool} {kind : Act → Prop}

theorem Moves.aside (allowed : kind .aside) {storage : Storage}
    (seen : p.storage.Observed storage) : Moves kind p {p with storage} :=
  .one allowed (.aside seen)

theorem Moves.asSeeks {who : Option TxnId} {q : Pool} (moves : Moves (Act.reads who) p q) :
    Moves (Act.seeks who) p q := moves.mono fun _ => Act.readsSeeks

theorem Moves.sameLocks {q : Pool} (moves : Moves Act.looks p q) : q.locks = p.locks := by
  refine moves.within (fun p q => q.locks = p.locks) (fun _ => rfl)
    (fun _ _ _ first second => second.trans first) fun act p q allowed move => ?_
  cases move <;> first | exact allowed.elim | rfl | exact dropLocks ..

theorem Move.keepsLock {act : Act} {q : Pool} {txn : TxnId} {page : PageId}
    (still : ¬ act.unlocks txn page) (move : Move act p q)
    (locked : (p.locks.access? txn page).isSome = true) :
    (q.locks.access? txn page).isSome = true := by
  cases move with
  | take granted =>
    rw [LockTable.accessRequest granted]
    split
    · rfl
    · exact locked
  | unprobe | giveBack =>
    refine (congrArg _ (LockTable.accessRelease ..)).trans ?_
    rw [if_neg]
    · exact locked
    · exact still
  | giveAll =>
    refine (congrArg _ (LockTable.accessReleaseAll ..)).trans ?_
    rw [if_neg]
    · exact locked
    · exact still
  | evict | forget => rwa [dropLocks]
  | _ => exact locked

theorem tableFound {id : TableId} {file : HeapFile} (found : p.tables.get? id = some file) :
    table id p = .ok file p := by
  change demand Pool (p.findTable id) p = _
  rw [findTable, found]
  rfl

theorem tableMissing {id : TableId} (missing : p.tables.get? id = none) :
    table id p = .error (.invalid (.unknownTable id)) p := by
  change demand Pool (p.findTable id) p = _
  rw [findTable, missing]
  rfl

theorem tableEnds (p : Pool) (id : TableId) :
    Ends (fun file t => t = p ∧ p.tables.get? id = some file)
      (fun t => t = p ∧ p.tables.get? id = none) (table id p) := by
  cases found : p.tables.get? id with
  | some file =>
    rw [tableFound found]
    exact ⟨rfl, rfl⟩
  | none =>
    rw [tableMissing found]
    exact ⟨rfl, rfl⟩

theorem flushClean {page : PageId} {frame : Frame} (present : p.resident.get? page = some frame)
    (clean : frame.page.isDirty = false) : flushPage page p = .ok () p := by
  unfold flushPage
  rw [getThen]
  simp only [present, clean, Bool.false_eq_true, if_false]
  rfl

theorem flushAbsent {page : PageId} (absent : p.resident.get? page = none) :
    flushPage page p = .ok () p := by
  unfold flushPage
  rw [getThen]
  simp only [absent]
  rfl

def Spared (p : Pool) (point : FaultPoint) : Prop :=
  ∀ table file, p.tables.get? table = some file → p.storage.Spares file.volume point

theorem flushDirty (housed : p.Housed) {page : PageId} {frame : Frame}
    (present : p.resident.get? page = some frame) (dirty : frame.page.isDirty = true) :
    Ends (fun _ t => Move (.save page) p t ∧
        t = {p with
          storage := t.storage
          resident := p.resident.insert page {frame with page := frame.page.markClean}} ∧
        ∃ file w, p.tables.get? page.table = some file ∧
          p.storage.store file.volume page.number frame.page.image = .ok w ∧
          w.SameContent t.storage)
      (fun t => (∃ storage, t = {p with storage} ∧ p.storage.Observed storage) ∧ ¬ p.Spared .write)
      (flushPage page p) := by
  obtain ⟨file, found, key, layout, inside⟩ := housed.keeps page frame present
  unfold flushPage
  rw [getThen]
  simp only [present, dirty, if_true]
  refine (tableEnds p frame.page.id.table).andThen (fun other t here => ?_) (fun t lost => ?_)
  · obtain ⟨rfl, own⟩ := here
    rw [key, found] at own
    cases own
    have home : frame.page.id.table = file.table := by rw [key, housed.named _ _ found]
    have writable : t.storage.Writable file.volume frame.page.id.number frame.page.image :=
      ⟨key ▸ inside, frame.page.whole.trans (by rw [layout, housed.sized _ _ found])⟩
    have called : Ends (fun _ u => ∃ storage, u = {t with storage} ∧
          t.storage.Stored storage file.volume page.number frame.page.image ∧
          ∃ w, t.storage.store file.volume page.number frame.page.image = .ok w ∧
            w.SameContent storage)
        (fun u => (∃ storage, u = {t with storage} ∧ t.storage.Observed storage) ∧
          ¬ t.Spared .write)
        (onStorage (file.writePage frame.page) t) := by
      refine Ends.inPart ((HeapFile.writeEnds home writable).mono
        (fun _ storage stored => ⟨storage, rfl, key ▸ stored.1, key ▸ stored.2⟩)
        (fun storage failed => ?_))
      exact ⟨⟨storage, rfl, failed.1⟩, fun spared => failed.2 (spared _ _ found)⟩
    refine called.andThen (fun _ u wrote => ?_) (fun _ lost => lost)
    obtain ⟨storage, rfl, stored, w, kept, same⟩ := wrote
    have written : update {t with storage} {frame with page := frame.page.markClean} =
        {t with
          storage
          resident := t.resident.insert page {frame with page := frame.page.markClean}} := by
      unfold update
      rw [show frame.page.markClean.id = page from key]
      simp only [present, if_true]
    change Ends _ _ (.ok () (update {t with storage} _))
    rw [written]
    exact ⟨.save present found stored, rfl, file, w, found, kept, same⟩
  · rw [key, found] at lost
    cases lost.2

def CleanAt (p : Pool) (page : PageId) : Prop :=
  ∀ frame, p.resident.get? page = some frame → frame.page.dirtiedBy = none

theorem flushEnds (housed : p.Housed) (page : PageId) :
    Ends (fun _ t => Moves (Act.saves [page]) p t ∧ t.CleanAt page)
      (fun t => Moves (Act.saves [page]) p t ∧ ¬ p.Spared .write) (flushPage page p) := by
  cases present : p.resident.get? page with
  | none =>
    rw [flushAbsent present]
    exact ⟨.refl, fun frame found => by rw [present] at found; cases found⟩
  | some frame =>
    cases dirty : frame.page.isDirty with
    | false =>
      rw [flushClean present dirty]
      refine ⟨.refl, fun other found => ?_⟩
      rw [present] at found
      cases found
      exact Option.isNone_iff_eq_none.mp (Option.isSome_eq_false_iff.mp dirty)
    | true =>
      refine (flushDirty housed present dirty).mono (fun _ t saved => ?_) (fun _ lost => ?_)
      · have saving : Act.saves [page] (.save page) := List.mem_singleton.mpr rfl
        refine ⟨.one saving saved.1, fun other found => ?_⟩
        rw [saved.2.1, KeyMap.getInsert, if_pos rfl] at found
        cases found
        rfl
      · obtain ⟨⟨storage, rfl, seen⟩, planned⟩ := lost
        exact ⟨.aside trivial seen, planned⟩

/- Making room, and getting pages. -/

theorem memVictims {page : PageId} : page ∈ p.victims ↔
    ∃ frame, p.resident.get? page = some frame ∧ p.isVictim page frame = true := by
  simp only [victims, List.mem_map, List.mem_filter]
  constructor
  · rintro ⟨⟨key, frame⟩, ⟨there, leaves⟩, rfl⟩
    exact ⟨frame, (p.resident.memEntries key frame).mp there, leaves⟩
  · rintro ⟨frame, present, leaves⟩
    exact ⟨(page, frame), ⟨(p.resident.memEntries page frame).mpr present, leaves⟩, rfl⟩

theorem evictChosen {first : PageId} {rest : List PageId} (found : p.victims = first :: rest) :
    ∃ page frame, p.resident.get? page = some frame ∧ p.isVictim page frame = true ∧
      evict p = .ok () (drop {p with draws := p.draws.tail} page) := by
  have chosen : (first :: rest).getD (p.draws.headD 0 % (rest.length + 1)) first ∈ p.victims := by
    have inside : p.draws.headD 0 % (rest.length + 1) < (first :: rest).length :=
      Nat.mod_lt _ (by simp)
    rw [found, List.getD_eq_getElem?_getD, List.getElem?_eq_getElem inside]
    exact List.getElem_mem inside
  obtain ⟨frame, present, leaves⟩ := memVictims.mp chosen
  refine ⟨_, frame, present, leaves, ?_⟩
  simp only [isVictim, Bool.and_eq_true, Bool.not_eq_true'] at leaves
  unfold evict
  rw [getThen, found]
  change (flushPage ((first :: rest).getD (p.draws.headD 0 % (rest.length + 1)) first) >>=
    fun _ => (modify (·.drop ((first :: rest).getD (p.draws.headD 0 % (rest.length + 1)) first)) :
      Instant Pool Unit)) {p with draws := p.draws.tail} = _
  generalize (first :: rest).getD (p.draws.headD 0 % (rest.length + 1)) first = page
    at present leaves ⊢
  change EStateM.bind (flushPage page) _ _ = _
  rw [EStateM.bind, flushClean (p := {p with draws := p.draws.tail}) present leaves.2]
  rfl

theorem evictEnds (p : Pool) :
    Ends (fun _ t => ∃ page, Move (.evict page) {p with draws := p.draws.tail} t) (· = p)
      (evict p) := by
  cases found : p.victims with
  | nil =>
    unfold evict
    rw [getThen, found]
    rfl
  | cons first rest =>
    obtain ⟨page, frame, present, leaves, left⟩ := evictChosen found
    simp only [isVictim, Bool.and_eq_true, Bool.not_eq_true'] at leaves
    rw [left]
    exact ⟨page, .evict present
      (Option.isNone_iff_eq_none.mp (Option.isSome_eq_false_iff.mp leaves.2)) leaves.1.1⟩

theorem Moves.drawn {kind : Act → Prop} (allowed : kind .aside) (p : Pool) :
    Moves kind p {p with draws := p.draws.tail} := .one allowed (.aside (.refl _))

theorem makeRoomEnds (housed : p.Housed) :
    Ends (fun _ t => Moves Act.looks p t ∧ t.resident.size < t.capacity ∧
        ∀ page, p.resident.get? page = none → t.resident.get? page = none)
      (Moves Act.looks p) (makeRoom p) := by
  change Ends _ _ ((if p.capacity ≤ p.resident.size then evict else pure () : Instant Pool Unit) p)
  split
  · rename_i full
    refine (evictEnds p).mono (fun _ t left => ?_) (fun t same => same ▸ .refl)
    obtain ⟨page, move⟩ := left
    have evicted : Act.looks (.evict page) := trivial
    refine ⟨(Moves.drawn trivial p).trans (.one evicted move), ?_⟩
    cases move with
    | evict present clean free =>
      have smaller : (p.resident.erase page).size + 1 = p.resident.size := KeyMap.sizeErase present
      have bounded := housed.bounded
      refine ⟨?_, fun other absent => ?_⟩
      · unfold drop
        rw [present]
        change (p.resident.erase page).size < p.capacity
        omega
      · rw [residentDrop]
        split
        · rfl
        · exact absent
  · rename_i space
    exact ⟨.refl, Nat.lt_of_not_le space, fun _ absent => absent⟩

theorem loadEnds (housed : p.Housed) {page : PageId} (absent : p.resident.get? page = none) :
    Ends (fun frame t => Moves Act.looks p t ∧ t.resident.get? page = some frame)
      (Moves Act.looks p) (load page p) := by
  change Ends _ _ ((makeRoom >>= fun _ => table page.table >>= fun file =>
    onStorage (file.readPage page) >>= fun copy => newFrame copy >>= fun frame =>
      modify (fun p => {p with resident := p.resident.insert page frame}) >>= fun _ =>
        pure frame) p)
  refine (makeRoomEnds housed).andThen (fun _ a roomy => ?_) (fun _ lost => lost)
  obtain ⟨before, space, still⟩ := roomy
  refine (tableEnds a page.table).andThen (fun file b here => ?_) (fun _ lost => lost.1 ▸ before)
  obtain ⟨rfl, found⟩ := here
  have read : Ends (fun copy t => ∃ storage, t = {b with storage} ∧ b.storage.Observed storage ∧
        file.Copied b.storage page copy)
      (Moves Act.looks p) (onStorage (file.readPage page) b) := by
    refine Ends.inPart ((HeapFile.readEnds file b.storage page).mono
      (fun copy storage copied => ⟨storage, rfl, copied⟩) (fun storage seen => ?_))
    exact before.trans (.aside trivial seen)
  refine read.andThen (fun copy c got => ?_) (fun _ lost => lost)
  obtain ⟨storage, rfl, seen, copied⟩ := got
  have copied : file.Copied storage page copy :=
    {copied with image := (seen.page? ..).trans copied.image}
  have loaded : Move (.load page) {b with storage} _ := .load (still page absent) space found copied
  have looked : Moves Act.looks b {b with storage} := .aside trivial seen
  refine ⟨before.trans (looked.trans (.one (show Act.looks (.load page) from trivial) loaded)), ?_⟩
  exact (KeyMap.getInsert ..).trans (if_pos rfl)

theorem fetchEnds (housed : p.Housed) (page : PageId) :
    Ends (fun frame t => Moves Act.looks p t ∧ t.resident.get? page = some frame)
      (Moves Act.looks p) (fetch page p) := by
  unfold fetch
  rw [getThen]
  cases present : p.resident.get? page with
  | none => exact loadEnds housed present
  | some frame => exact ⟨.refl, present⟩

end instant
end Pool
end PagedHeap
