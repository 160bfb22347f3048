import PagedHeap.Proofs.LockLaws

/-! How much of two engines is compared: all of it, or one table with the locks on its pages. The
locks on the pages of a table decide whatever is asked for there, and nobody who works on other
tables takes or gives back any of them. -/
namespace PagedHeap

/- Who shares and who owns each page of a table, and what everybody holds there, in the order in
which it was taken. -/
@[ext]
structure TableLocks where
  sharers : UInt32 → List TxnId
  owners : UInt32 → List TxnId
  held : TxnId → List Lock

namespace LockTable

variable {t u : LockTable} {table : TableId} {page : PageId} {wanted : Lock}

def on (t : LockTable) (table : TableId) : TableLocks where
  sharers number := t.sharers.of ⟨table, number⟩
  owners number := t.owners.of ⟨table, number⟩
  held txn := (t.heldBy txn).filter (·.page.table = table)

/- Two lock tables with the same locks on the pages of one table. -/

section same

variable (same : u.on table = t.on table)

include same

theorem onSharers (here : page.table = table) : u.sharers.of page = t.sharers.of page := by
  cases here
  exact congrFun (congrArg TableLocks.sharers same) page.number

theorem onOwners (here : page.table = table) : u.owners.of page = t.owners.of page := by
  cases here
  exact congrFun (congrArg TableLocks.owners same) page.number

theorem onHeld (txn : TxnId) : (u.heldBy txn).filter (·.page.table = table) =
    (t.heldBy txn).filter (·.page.table = table) :=
  congrFun (congrArg TableLocks.held same) txn

theorem onHeldAway (page : PageId) (txn : TxnId) :
    ((u.heldBy txn).filter (·.page ≠ page)).filter (·.page.table = table) =
      ((t.heldBy txn).filter (·.page ≠ page)).filter (·.page.table = table) := by
  have swapped (locks : List Lock) :
      (locks.filter (·.page ≠ page)).filter (·.page.table = table) =
        (locks.filter (·.page.table = table)).filter (·.page ≠ page) := by
    simp only [List.filter_filter, Bool.and_comm]
  rw [swapped, swapped, onHeld same]

theorem accessOn (here : page.table = table) (txn : TxnId) :
    u.access? txn page = t.access? txn page := by
  have found (t : LockTable) : (t.heldBy txn).find? (·.page = page) =
      ((t.heldBy txn).filter (·.page.table = table)).find? (·.page = page) := by
    rw [List.find?_filter]
    congr 1
    funext lock
    by_cases own : lock.page = page <;> simp [own, here]
  simp only [access?, found, onHeld same]

theorem grantOn (here : wanted.page.table = table) :
    (u.grant wanted).on table = (t.grant wanted).on table := by
  ext number n
  · have others : u.sharers.of ⟨table, number⟩ = t.sharers.of ⟨table, number⟩ := onSharers same rfl
    cases asked : wanted.access <;> simp only [on, grant, asked, Holders.ofAdd, Holders.ofStrike,
      onSharers same here, others]
  · have others : u.owners.of ⟨table, number⟩ = t.owners.of ⟨table, number⟩ := onOwners same rfl
    cases asked : wanted.access <;> simp only [on, grant, asked, Holders.ofAdd,
      onOwners same here, others]
  · simp only [on, heldByGrant]
    split
    · rw [List.filter_append, List.filter_append, onHeldAway same]
    · rw [onHeld same]

theorem requestOn (here : wanted.page.table = table) :
    (u.request wanted).1 = (t.request wanted).1 ∧
      (u.request wanted).2.on table = (t.request wanted).2.on table := by
  have covered : u.covers wanted = t.covers wanted := by
    simp only [covers, accessOn same here]
  have grantable : u.canGrant wanted = t.canGrant wanted := by
    simp only [canGrant, isFreeFor, owner?, onSharers same here, onOwners same here]
  simp only [request, covered, grantable]
  split
  · exact ⟨rfl, same⟩
  · split
    · exact ⟨rfl, grantOn same here⟩
    · exact ⟨rfl, same⟩

theorem releaseOn (here : page.table = table) (txn : TxnId) :
    (u.release txn page).on table = (t.release txn page).on table := by
  ext number n
  · have others : u.sharers.of ⟨table, number⟩ = t.sharers.of ⟨table, number⟩ := onSharers same rfl
    simp only [on, release, leave, Holders.ofDrop, onSharers same here, others]
  · have others : u.owners.of ⟨table, number⟩ = t.owners.of ⟨table, number⟩ := onOwners same rfl
    simp only [on, release, leave, Holders.ofDrop, onOwners same here, others]
  · simp only [on, heldByRelease]
    split
    · rw [onHeldAway same]
    · rw [onHeld same]

theorem releaseAllOn (txn : TxnId) :
    (u.releaseAll txn).2.on table = (t.releaseAll txn).2.on table := by
  have within (t : LockTable) (number : UInt32) : ⟨table, number⟩ ∈ (t.heldBy txn).map (·.page) ↔
      ⟨table, number⟩ ∈ ((t.heldBy txn).filter (·.page.table = table)).map (·.page) := by
    simp only [List.mem_map, List.mem_filter, decide_eq_true_eq, and_assoc]
    exact exists_congr fun lock => and_congr_right fun _ =>
      ⟨fun own => ⟨congrArg PageId.table own, own⟩, And.right⟩
  have listed (number : UInt32) : ⟨table, number⟩ ∈ (u.heldBy txn).map (·.page) ↔
      ⟨table, number⟩ ∈ (t.heldBy txn).map (·.page) := by
    rw [within u, within t, onHeld same]
  ext number n
  · have sharers : u.sharers.of ⟨table, number⟩ = t.sharers.of ⟨table, number⟩ := onSharers same rfl
    simp only [on, releaseAll, (ofLeaveAll ..).1, sharers, listed]
  · have owners : u.owners.of ⟨table, number⟩ = t.owners.of ⟨table, number⟩ := onOwners same rfl
    simp only [on, releaseAll, (ofLeaveAll ..).2, owners, listed]
  · simp only [on, heldByReleaseAll]
    split
    · rfl
    · rw [onHeld same]

end same

/- Work on the pages of other tables. -/

section aside

variable (aside : page.table ≠ table)

include aside

theorem heldAside (locks : List Lock) :
    (locks.filter (·.page ≠ page)).filter (·.page.table = table) =
      locks.filter (·.page.table = table) := by
  rw [List.filter_filter]
  refine List.filter_congr fun lock _ => ?_
  by_cases here : lock.page.table = table
  · have away : lock.page ≠ page := fun same => aside (same ▸ here)
    simp [here, away]
  · simp [here]

theorem grantAside (t : LockTable) (txn : TxnId) (access : Access) :
    (t.grant ⟨txn, page, access⟩).on table = t.on table := by
  have away (number : UInt32) : page ≠ ⟨table, number⟩ := fun same => aside (same ▸ rfl)
  ext number n
  · cases access <;> simp only [on, grant, Holders.ofAdd, Holders.ofStrike, if_neg (away number)]
  · cases access <;> simp only [on, grant, Holders.ofAdd, if_neg (away number)]
  · simp only [on, heldByGrant]
    split
    · rename_i own
      cases own
      rw [List.filter_append, heldAside aside]
      simp [aside]
    · rfl

theorem requestAside (t : LockTable) (txn : TxnId) (access : Access) :
    (t.request ⟨txn, page, access⟩).2.on table = t.on table := by
  simp only [request]
  split
  · rfl
  · split
    · exact grantAside aside ..
    · rfl

theorem releaseAside (t : LockTable) (txn : TxnId) :
    (t.release txn page).on table = t.on table := by
  have away (number : UInt32) : page ≠ ⟨table, number⟩ := fun same => aside (same ▸ rfl)
  ext number n
  · simp only [on, release, leave, Holders.ofDrop, if_neg (away number)]
  · simp only [on, release, leave, Holders.ofDrop, if_neg (away number)]
  · simp only [on, heldByRelease]
    split
    · rename_i own
      rw [heldAside aside, own]
    · rfl

end aside

end LockTable

/- Some of the tables, and what is seen of the locks: enough to tell what becomes of any request
for a page of those tables, and nothing that requests for other pages could change. -/
structure Scope where
  Holds : TableId → Prop
  Seen : Type
  seen : LockTable → Seen
  access : ∀ {t u : LockTable} {page : PageId}, seen u = seen t → Holds page.table →
    ∀ txn, u.access? txn page = t.access? txn page
  request : ∀ {t u : LockTable} {wanted : Lock}, seen u = seen t → Holds wanted.page.table →
    (u.request wanted).1 = (t.request wanted).1 ∧
      seen (u.request wanted).2 = seen (t.request wanted).2
  release : ∀ {t u : LockTable} {page : PageId}, seen u = seen t → Holds page.table →
    ∀ txn, seen (u.release txn page) = seen (t.release txn page)
  releaseAll : ∀ {t u : LockTable}, seen u = seen t →
    ∀ txn, seen (u.releaseAll txn).2 = seen (t.releaseAll txn).2
  requestAside : ∀ {page : PageId}, ¬ Holds page.table → ∀ (t : LockTable) txn access,
    seen (t.request ⟨txn, page, access⟩).2 = seen t
  releaseAside : ∀ {page : PageId}, ¬ Holds page.table → ∀ (t : LockTable) txn,
    seen (t.release txn page) = seen t

namespace Scope

def whole : Scope where
  Holds _ := True
  Seen := LockTable
  seen := id
  access same _ _ := by cases same; rfl
  request same _ := by cases same; exact ⟨rfl, rfl⟩
  release same _ _ := by cases same; rfl
  releaseAll same _ := by cases same; rfl
  requestAside outside := (outside trivial).elim
  releaseAside outside := (outside trivial).elim

def table (table : TableId) : Scope where
  Holds other := other = table
  Seen := TableLocks
  seen locks := locks.on table
  access same here := LockTable.accessOn same here
  request same here := LockTable.requestOn same here
  release same here := LockTable.releaseOn same here
  releaseAll same := LockTable.releaseAllOn same
  requestAside outside := LockTable.requestAside outside
  releaseAside outside := LockTable.releaseAside outside

end Scope
end PagedHeap
