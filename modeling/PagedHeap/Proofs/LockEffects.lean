import PagedHeap.Proofs.Upkeep

/-! In whose name locks are taken and given back. Work for a transaction leaves the locks of
all others as they are, whatever the pool is like and whatever becomes of the calls of its
volumes; the end of a transaction gives back all of its own. -/
namespace PagedHeap.Pool

variable {α β : Type} {who : Option TxnId} {txn : TxnId} {p q r : Pool}

/- Work that has nothing to do with locks. -/

def SameLocks (p q : Pool) : Prop := q.locks = p.locks

instance : Std.Refl SameLocks := ⟨fun _ => rfl⟩

instance : Trans SameLocks SameLocks SameLocks := ⟨fun first second => second.trans first⟩

def KeepsLocks (work : Instant Pool α) : Prop := Steps SameLocks work

theorem sameLocksUpkeep : FullUpkeep none SameLocks :=
  .ofAside (fun _ _ => rfl) (fun _ _ _ _ _ => rfl) fun _ _ => nofun

theorem locksUpdate (p : Pool) (f : Frame) : (p.update f).locks = p.locks :=
  sameLocksUpkeep.update p f

theorem tableKeeps (id : TableId) : KeepsLocks (table id) := tableSteps id

theorem registerKeeps (file : HeapFile) : KeepsLocks (register file) :=
  Steps.gets.bind fun _ => .bind (.asks _) fun _ _ => rfl

theorem flushAllKeeps : KeepsLocks flushAll := sameLocksUpkeep.pieces.flushAll

theorem fetchKeeps (page : PageId) : KeepsLocks (fetch page) := sameLocksUpkeep.fetch page

/- Work in somebody's name. -/

def ActsFor (who : Option TxnId) (p q : Pool) : Prop :=
  ∀ txn, who ≠ some txn → q.locks.heldBy txn = p.locks.heldBy txn

namespace ActsFor

theorem ofLocks (same : q.locks = p.locks) : ActsFor who p q := fun _ _ => by rw [same]

theorem refl (who : Option TxnId) (p : Pool) : ActsFor who p p := .ofLocks rfl

theorem trans (first : ActsFor who p q) (second : ActsFor who q r) : ActsFor who p r :=
  fun txn other => (second txn other).trans (first txn other)

theorem release (txn : TxnId) (page : PageId) :
    ActsFor (some txn) p {p with locks := p.locks.release txn page} := fun other apart => by
  refine (LockTable.heldByRelease ..).trans (if_neg ?_)
  rintro rfl
  exact apart rfl

theorem releaseAll (txn : TxnId) :
    ActsFor (some txn) p {p with locks := (p.locks.releaseAll txn).2} := fun other apart => by
  refine (LockTable.heldByReleaseAll ..).trans (if_neg ?_)
  rintro rfl
  exact apart rfl

theorem request (wanted : Lock) :
    ActsFor (some wanted.txn) p {p with locks := (p.locks.request wanted).2} := fun _ apart =>
  p.locks.heldByRequest fun same => apart (congrArg some same.symm)

end ActsFor

/- Every stretch touches the locks of one transaction only, whatever others do meanwhile. -/
def ActsOnlyFor (who : Option TxnId) (work : Activity Pool α) : Prop :=
  ∀ p, (work p).Meets (ActsFor who) (fun _ _ => True) (fun p _ q => ActsFor who p q) p

instance : Std.Refl (ActsFor who) := ⟨.refl who⟩

instance : Trans (ActsFor who) (ActsFor who) (ActsFor who) := ⟨.trans⟩

theorem actsForUpkeep (who : Option TxnId) : FullUpkeep who (ActsFor who) := by
  refine .ofAside (fun _ _ => .ofLocks rfl) (fun _ _ _ _ _ => .ofLocks rfl)
    fun p step own => ?_
  subst own
  cases step with
  | request wanted => exact .request wanted
  | release txn page => exact .release txn page
  | releaseAll txn => exact .releaseAll txn

theorem insertActsFor (txn : TxnId) (table : TableId) (data : Bytes) :
    ActsOnlyFor (some txn) (insert txn table data) := (actsForUpkeep _).pieces.insert table data

theorem deleteActsFor (txn : TxnId) (rid : Option Rid) : ActsOnlyFor (some txn) (delete txn rid) :=
  (actsForUpkeep _).pieces.delete rid

theorem scanActsFor (who : Option TxnId) (file : HeapFile) : ActsOnlyFor who (file.scan who) :=
  (actsForUpkeep who).pieces.scan file

/- The ends of transactions. -/

theorem commitLocks (txn : TxnId) (p : Pool) :
    Ends (fun _ q => ActsFor (some txn) p q ∧ q.locks.heldBy txn = [])
      (fun q => q.locks = p.locks) (commit txn p) := by
  refine (sameLocksUpkeep.pieces.flushOwned txn p).andThen (fun _ m same => ⟨?_, ?_⟩)
    (fun _ same => same)
  · exact (ActsFor.ofLocks same).trans (.releaseAll txn)
  · exact (LockTable.heldByReleaseAll ..).trans (if_pos rfl)

theorem abortLocks (txn : TxnId) (p : Pool) :
    Ends (fun _ q => ActsFor (some txn) p q ∧ q.locks.heldBy txn = []) (fun _ => False)
      (abort txn p) := by
  have dropped := sameLocksUpkeep.pieces.dropAll (p.locks.ownedBy txn) p
  refine ⟨(ActsFor.ofLocks dropped).trans (.releaseAll txn), ?_⟩
  exact (LockTable.heldByReleaseAll ..).trans (if_pos rfl)

end PagedHeap.Pool
