import PagedHeap.Proofs.Upkeep

/-! What holds of a pool however it is used. Tables may share volumes, volumes may fail, and locks
may be given back too early: pages and tables are still filed under their own numbers, and the
lock table still agrees with itself. -/
namespace PagedHeap.Pool

variable {α : Type} {txn : TxnId} {page : PageId} {p q : Pool} {who : Option TxnId}

/- Pages are kept under their own numbers. -/
def Keyed (p : Pool) : Prop :=
  ∀ page frame, p.resident.get? page = some frame → frame.page.id = page

def KeepsKeyed (p q : Pool) : Prop := p.Keyed → q.Keyed

instance : Std.Refl KeepsKeyed := ⟨fun _ => id⟩

instance : Trans KeepsKeyed KeepsKeyed KeepsKeyed := ⟨fun first second => second ∘ first⟩

namespace KeepsKeyed

theorem same (resident : q.resident = p.resident) : KeepsKeyed p q := fun keyed page frame there =>
  keyed page frame (resident ▸ there)

theorem put {frame : Frame} (key : frame.page.id = page)
    (resident : q.resident = p.resident.insert page frame) : KeepsKeyed p q := by
  intro keyed other found there
  rw [resident, KeyMap.getInsert] at there
  split at there
  · rename_i same
    cases there
    exact key.trans same
  · exact keyed other found there

theorem drop (p : Pool) (page : PageId) : KeepsKeyed p (p.drop page) := by
  intro keyed other frame there
  rw [residentDrop] at there
  split at there
  · cases there
  · exact keyed other frame there

theorem update (p : Pool) (frame : Frame) : KeepsKeyed p (p.update frame) := by
  unfold Pool.update
  split
  · split
    · exact .put rfl rfl
    · exact .same rfl
  · exact .same rfl

theorem place (p : Pool) (frame : Frame) : KeepsKeyed p (p.place frame) := by
  unfold Pool.place
  split
  · split
    · exact .update p frame
    · have entered : KeepsKeyed (p.drop frame.page.id) ((p.drop frame.page.id).bring frame) :=
        .put rfl rfl
      exact Trans.trans (KeepsKeyed.drop p frame.page.id) entered
  · exact .put rfl rfl

end KeepsKeyed

/- Instant work. -/

theorem storageKeyed (work : Instant Storage α) : Steps KeepsKeyed (onStorage work) :=
  asideStorage (fun _ _ => .same rfl) work

theorem writeKeyed (frame : Frame) : Steps KeepsKeyed (write frame) := fun p => .update p frame

theorem flushKeyed (page : PageId) : Steps KeepsKeyed (flushPage page) := by
  refine Steps.gets.bind fun p => ?_
  split
  · exact .returns _
  · split
    · exact (tableSteps _).bind fun file => (storageKeyed _).bind fun _ => writeKeyed _
    · exact .returns _

theorem makeRoomKeyed : Steps KeepsKeyed makeRoom := by
  have draws : Steps KeepsKeyed draw := fun _ => .same rfl
  have leaves (page : PageId) : Steps KeepsKeyed (modify (·.drop page)) := fun p => .drop p page
  refine Steps.gets.bind fun p => ?_
  split
  · refine Steps.gets.bind fun q => ?_
    split
    · exact Steps.gets.bind fun _ => .throws _
    · exact draws.bind fun _ => (flushKeyed _).bind fun _ => leaves _
  · exact .returns _

theorem fetchKeyed (keyed : p.Keyed) (page : PageId) :
    Ends (fun frame q => q.Keyed ∧ q.resident.get? page = some frame) Keyed (fetch page p) := by
  unfold fetch
  rw [getThen]
  cases present : p.resident.get? page with
  | some frame => exact ⟨keyed, present⟩
  | none =>
    refine (makeRoomKeyed p).andThen (fun _ q roomy => ?_) (fun _ kept => kept keyed)
    refine (tableEnds q page.table).andThen (fun file r found => ?_)
      (fun r lost => lost.1 ▸ roomy keyed)
    obtain ⟨rfl, _⟩ := found
    have read : Ends (fun copy t => t.Keyed ∧ copy.id = page) Keyed
        (onStorage (file.readPage page) r) :=
      Ends.inPart ((HeapFile.readEnds file r.storage page).mono
        (fun _ _ copied => ⟨roomy keyed, copied.2.key⟩) (fun _ _ => roomy keyed))
    refine read.andThen (fun copy t got => ?_) (fun _ kept => kept)
    obtain ⟨kept, key⟩ := got
    have entered : KeepsKeyed t {t with
        nextFrame := t.nextFrame + 1
        resident := t.resident.insert page ⟨t.nextFrame, copy⟩} := .put key rfl
    exact ⟨entered kept, (KeyMap.getInsert ..).trans (if_pos rfl)⟩

theorem fetchSteps (page : PageId) : Steps KeepsKeyed (fetch page) := fun p => by
  have fetched (keyed : p.Keyed) := fetchKeyed keyed page
  cases done : fetch page p <;> rw [done] at fetched
  · exact fun keyed => (fetched keyed).1
  · exact fetched

theorem pinSteps (txn : TxnId) (frame : Frame) : Steps KeepsKeyed (pin txn frame) := by
  have places (frame : Frame) : Steps KeepsKeyed (modify (·.place frame)) := fun p => .place p frame
  refine Steps.gets.bind fun p => (writeKeyed _).bind fun _ => Steps.bind ?_ fun _ => places _
  refine Steps.gets.bind fun p => ?_
  split
  · exact .returns _
  · exact makeRoomKeyed

theorem keyedPieces (who : Option TxnId) : AllPieces who KeepsKeyed where
  locks _ _ _ := .same rfl
  counts _ := storageKeyed _
  allocates _ := storageKeyed _
  fetch := fetchSteps
  write := writeKeyed
  pin := pinSteps
  draws _ _ := .same rfl
  drop := .drop
  flushPage := flushKeyed

/- The lock table and the table of tables. -/

def Named (p : Pool) : Prop := ∀ table file, p.tables.get? table = some file → file.table = table

def KeepsIndices (p q : Pool) : Prop := (p.locks.Coherent → q.locks.Coherent) ∧ (p.Named → q.Named)

instance : Std.Refl KeepsIndices := ⟨fun _ => ⟨id, id⟩⟩

instance : Trans KeepsIndices KeepsIndices KeepsIndices :=
  ⟨fun first second => ⟨second.1 ∘ first.1, second.2 ∘ first.2⟩⟩

theorem indicesUpkeep (who : Option TxnId) : FullUpkeep who KeepsIndices :=
  .ofAside (fun _ _ => ⟨id, id⟩) (fun _ _ _ _ _ => ⟨id, id⟩)
    fun _ step _ => ⟨fun coherent => coherent.perform step, id⟩

theorem registerIndices (file : HeapFile) : Steps KeepsIndices (register file) := by
  refine Steps.gets.bind fun _ => (Steps.asks _).bind fun _ p => ⟨id, fun named => ?_⟩
  intro table other found
  replace found := (KeyMap.getInsert ..).symm.trans found
  split at found
  · rename_i same
    cases found
    exact same
  · exact named table other found

/- All of it. -/

structure Filed (p : Pool) : Prop where
  keyed : p.Keyed
  coherent : p.locks.Coherent
  named : p.Named

def KeepsFiled (p q : Pool) : Prop := p.Filed → q.Filed

theorem filedBoth (keyed : KeepsKeyed p q) (indices : KeepsIndices p q) : KeepsFiled p q :=
  fun filed => ⟨keyed filed.keyed, indices.1 filed.coherent, indices.2 filed.named⟩

instance : Std.Refl KeepsFiled := ⟨fun _ => id⟩

instance : Trans KeepsFiled KeepsFiled KeepsFiled := ⟨fun first second => second ∘ first⟩

theorem filedPieces (who : Option TxnId) : AllPieces who KeepsFiled :=
  (keyedPieces who).join (indicesUpkeep who).pieces fun _ _ => filedBoth

theorem registerFiled (file : HeapFile) : Steps KeepsFiled (register file) := by
  have keyed : Steps KeepsKeyed (register file) :=
    Steps.gets.bind fun _ => (Steps.asks _).bind fun _ _ => .same rfl
  exact keyed.join (registerIndices file) fun _ _ => filedBoth

theorem callFiled (call : PoolCall) : Upholds KeepsFiled call.work := fun p =>
  (filedPieces call.txn?).call call p fun file _ => registerFiled file p

theorem storageFiled (work : Instant Storage α) : Steps KeepsFiled (onStorage work) :=
  asideStorage (fun _ _ filed => ⟨filed.keyed, filed.coherent, filed.named⟩) work

/- Pools that are used in any way. -/

/- What a pool is used for: its own calls, tables that work on it whether it knows them or not,
and what becomes of the volumes meanwhile. -/
inductive PoolUse where
  | call (call : PoolCall)
  | insert (file : HeapFile) (txn : TxnId) (data : Bytes)
  | delete (file : HeapFile) (txn : TxnId) (rid : Option Rid)
  | scan (file : HeapFile) (who : Option TxnId)
  | aside (work : Instant Storage Unit)

namespace PoolUse

def txn? : PoolUse → Option TxnId
  | .call c => c.txn?
  | .insert _ txn _ | .delete _ txn _ => some txn
  | .scan _ who => who
  | .aside _ => none

def work : PoolUse → Activity Pool Unit
  | .call c => c.work
  | .insert file txn data => do let _ ← file.insert txn data
  | .delete file txn rid => do let _ ← file.delete txn rid
  | .scan file who => do let _ ← file.scan who
  | .aside below => onStorage below

theorem filed (use : PoolUse) : Upholds KeepsFiled use.work := by
  cases use with
  | call c => exact callFiled c
  | insert file txn data =>
    exact ((filedPieces (some txn)).tableInsert file data).bind fun _ => .returns _
  | delete file txn rid =>
    exact ((filedPieces (some txn)).tableDelete file rid).bind fun _ => .returns _
  | scan file who => exact ((filedPieces who).scan file).bind fun _ => .returns _
  | aside below => exact .lift (storageFiled below)

end PoolUse

def unguarded : Service Pool PoolUse Unit := ⟨PoolUse.txn?, PoolUse.work, fun _ _ => True⟩

theorem lawOfFiled : unguarded.Law (fun _ p => p.Filed) (fun _ => KeepsFiled) (fun _ _ _ => True)
    (fun _ p _ q => KeepsFiled p q) :=
  .kept (fun filed kept => kept filed) fun use p _ _ => use.filed p

theorem newFiled (config : Config) (storage : Storage) (draws : List Nat) :
    Filed {ofConfig config storage with draws} where
  keyed := nofun
  coherent := LockTable.emptyCoherent
  named := nofun

theorem reachedFiled {config : Config} {storage : Storage} {draws : List Nat}
    {h : History PoolUse Unit} {t : Traffic Pool PoolUse Unit}
    (run : unguarded.Run {ofConfig config storage with draws} h t) : t.state.Filed :=
  (lawOfFiled.run (newFiled config storage draws) run).holds

end PagedHeap.Pool
