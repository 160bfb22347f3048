import PagedHeap.Ident
import PagedHeap.KeyMap

/-! Page locks of transactions, shared or exclusive. Three indices are kept: who
shares a page, who owns it, and what a transaction holds, in the order in which it
took the locks. A lock that is raised from shared to exclusive counts as taken last,
and its page may stay listed without sharers. No transaction is listed without a
lock. -/
namespace PagedHeap

inductive Access where
  | shared
  | exclusive
  deriving DecidableEq, Repr

structure Lock where
  txn : TxnId
  page : PageId
  access : Access
  deriving DecidableEq, Repr

abbrev Holders := KeyMap PageId (List TxnId)

namespace Holders

def of (h : Holders) (page : PageId) : List TxnId := h.getD page []

def add (h : Holders) (page : PageId) (txn : TxnId) : Holders :=
  h.insert page (h.of page ++ [txn])

def drop (h : Holders) (page : PageId) (txn : TxnId) : Holders :=
  match (h.of page).filter (· ≠ txn) with
  | [] => h.erase page
  | rest => h.insert page rest

/- Takes the transaction out where it is listed; the page stays listed. -/
def strike (h : Holders) (page : PageId) (txn : TxnId) : Holders :=
  match h.get? page with
  | some holders => h.insert page (holders.filter (· ≠ txn))
  | none => h

theorem ofAdd (h : Holders) (page other : PageId) (txn : TxnId) :
    (h.add page txn).of other = if page = other then h.of page ++ [txn] else h.of other := by
  simp only [of, add, KeyMap.getD, KeyMap.getInsert]
  split <;> rfl

theorem ofDrop (h : Holders) (page other : PageId) (txn : TxnId) :
    (h.drop page txn).of other =
      if page = other then (h.of page).filter (· ≠ txn) else h.of other := by
  simp only [drop]
  split
  · rename_i none
    rw [none]
    simp only [of, KeyMap.getD, KeyMap.getErase]
    split <;> rfl
  · simp only [of, KeyMap.getD, KeyMap.getInsert]
    split <;> rfl

theorem ofStrike (h : Holders) (page other : PageId) (txn : TxnId) :
    (h.strike page txn).of other =
      if page = other then (h.of page).filter (· ≠ txn) else h.of other := by
  simp only [strike]
  split
  · rename_i holders found
    simp only [of, KeyMap.getD, KeyMap.getInsert, found]
    split <;> rfl
  · rename_i none
    simp only [of, KeyMap.getD]
    split
    · rename_i same
      rw [← same, none]
      rfl
    · rfl

end Holders

structure LockTable where
  sharers : Holders
  owners : Holders
  held : KeyMap TxnId (List Lock)
  deriving DecidableEq, Repr

namespace LockTable

def empty : LockTable := ⟨.empty, .empty, .empty⟩

instance : Inhabited LockTable := ⟨empty⟩

def heldBy (t : LockTable) (txn : TxnId) : List Lock := t.held.getD txn []

def access? (t : LockTable) (txn : TxnId) (page : PageId) : Option Access :=
  ((t.heldBy txn).find? (·.page = page)).map (·.access)

def holds (t : LockTable) (txn : TxnId) (page : PageId) : Bool := (t.access? txn page).isSome

def owner? (t : LockTable) (page : PageId) : Option TxnId := (t.owners.of page).head?

def isOwned (t : LockTable) (page : PageId) : Bool := (t.owner? page).isSome

def ownedBy (t : LockTable) (txn : TxnId) : List PageId :=
  ((t.heldBy txn).filter (·.access = .exclusive)).map (·.page)

/- Whether nobody else owns the page. -/
def isFreeFor (t : LockTable) (txn : TxnId) (page : PageId) : Bool :=
  match t.owner? page with
  | some owner => owner = txn
  | none => true

/- Whether no other transaction stands in the way. -/
def canGrant (t : LockTable) (wanted : Lock) : Bool :=
  let free := t.isFreeFor wanted.txn wanted.page
  match wanted.access with
  | .shared => free
  | .exclusive => free && (t.sharers.of wanted.page).all (· = wanted.txn)

/- Whether the transaction already has the lock or a stronger one. -/
def covers (t : LockTable) (wanted : Lock) : Bool :=
  match t.access? wanted.txn wanted.page, wanted.access with
  | some .exclusive, _ => true
  | some .shared, .shared => true
  | _, _ => false

def grant (t : LockTable) (wanted : Lock) : LockTable :=
  let others := (t.heldBy wanted.txn).filter (·.page ≠ wanted.page)
  let held := t.held.insert wanted.txn (others ++ [wanted])
  match wanted.access with
  | .shared => ⟨t.sharers.add wanted.page wanted.txn, t.owners, held⟩
  | .exclusive =>
      ⟨t.sharers.strike wanted.page wanted.txn, t.owners.add wanted.page wanted.txn, held⟩

/-- Takes the lock if nobody stands in the way; says whether it is held now. -/
def request (t : LockTable) (wanted : Lock) : Bool × LockTable :=
  if t.covers wanted then (true, t)
  else if t.canGrant wanted then (true, t.grant wanted)
  else (false, t)

def leave (t : LockTable) (txn : TxnId) (page : PageId) : LockTable :=
  {t with sharers := t.sharers.drop page txn, owners := t.owners.drop page txn}

def release (t : LockTable) (txn : TxnId) (page : PageId) : LockTable :=
  let held := match (t.heldBy txn).filter (·.page ≠ page) with
    | [] => t.held.erase txn
    | rest => t.held.insert txn rest
  {t.leave txn page with held}

def releaseAll (t : LockTable) (txn : TxnId) : List Lock × LockTable :=
  let locks := t.heldBy txn
  let left := locks.foldl (fun t lock => t.leave txn lock.page) t
  (locks, {left with held := t.held.erase txn})

theorem requestRefused {t : LockTable} {wanted : Lock} (h : (t.request wanted).1 = false) :
    t.request wanted = (false, t) := by
  simp only [request] at h ⊢
  split
  · rename_i covered; simp [covered] at h
  · split
    · rename_i refused granted; simp [refused, granted] at h
    · rfl

theorem requestIff (t : LockTable) (wanted : Lock) :
    (t.request wanted).1 = (t.covers wanted || t.canGrant wanted) := by
  simp only [request]
  cases t.covers wanted <;> cases t.canGrant wanted <;> rfl

theorem heldByGrant (t : LockTable) (wanted : Lock) (txn : TxnId) :
    (t.grant wanted).heldBy txn =
      if wanted.txn = txn then (t.heldBy txn).filter (·.page ≠ wanted.page) ++ [wanted]
      else t.heldBy txn := by
  simp only [grant, heldBy]
  split <;> simp only [KeyMap.getD, KeyMap.getInsert] <;> split <;> simp_all

theorem heldByRelease (t : LockTable) (txn other : TxnId) (page : PageId) :
    (t.release txn page).heldBy other =
      if txn = other then (t.heldBy txn).filter (·.page ≠ page) else t.heldBy other := by
  simp only [release, heldBy]
  split
  · rename_i none
    rw [none]
    simp only [KeyMap.getD, KeyMap.getErase]
    split <;> rfl
  · simp only [KeyMap.getD, KeyMap.getInsert]
    split <;> rfl

theorem heldByReleaseAll (t : LockTable) (txn other : TxnId) :
    (t.releaseAll txn).2.heldBy other = if txn = other then [] else t.heldBy other := by
  simp only [releaseAll, heldBy, KeyMap.getD, KeyMap.getErase]
  split <;> rfl

end LockTable
end PagedHeap
