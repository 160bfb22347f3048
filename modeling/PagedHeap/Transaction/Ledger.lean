import PagedHeap.Error
import PagedHeap.KeyMap

/-! Which transactions there are, and how they stand. Numbers are given out from 1
upwards and never again. -/
namespace PagedHeap

structure Ledger where
  nextTxn : TxnId
  statuses : KeyMap TxnId Status
  deriving DecidableEq, Repr

namespace Ledger

def empty : Ledger := ⟨1, .empty⟩

instance : Inhabited Ledger := ⟨empty⟩

def status? (l : Ledger) (txn : TxnId) : Option Status := l.statuses.get? txn

def mark (l : Ledger) (txn : TxnId) (status : Status) : Ledger :=
  {l with statuses := l.statuses.insert txn status}

def begin (l : Ledger) : TxnId × Ledger :=
  (l.nextTxn, {l with nextTxn := l.nextTxn + 1}.mark l.nextTxn .running)

def checkRunning (l : Ledger) (txn : TxnId) : Except Misuse Unit :=
  match l.status? txn with
  | some .running => .ok ()
  | some status => .error (.alreadyEnded txn status)
  | none => .error (.unknownTransaction txn)

def active (l : Ledger) : List TxnId :=
  ascending ((l.statuses.entries.filter (·.2 = .running)).map Prod.fst)

theorem refused {l : Ledger} {txn : TxnId} (stands : l.status? txn ≠ some .running) :
    ∃ cause, l.checkRunning txn = .error cause := by
  unfold checkRunning
  split
  · rename_i running
    exact absurd running stands
  · exact ⟨_, rfl⟩
  · exact ⟨_, rfl⟩

theorem memActive {l : Ledger} {txn : TxnId} :
    txn ∈ l.active ↔ l.status? txn = some .running := by
  simp only [active, ascending, List.mem_mergeSort, List.mem_map, List.mem_filter,
    decide_eq_true_eq]
  constructor
  · rintro ⟨⟨key, status⟩, ⟨there, rfl⟩, rfl⟩
    exact (l.statuses.memEntries key .running).mp there
  · exact fun runs => ⟨(txn, .running), ⟨(l.statuses.memEntries txn .running).mpr runs, rfl⟩, rfl⟩

theorem activeNodup (l : Ledger) : l.active.Nodup :=
  (List.mergeSort_perm _ _).nodup_iff.mpr (KeyMap.filterNodup _ l.statuses.distinctKeys)

theorem statusMark (l : Ledger) (txn other : TxnId) (status : Status) :
    (l.mark txn status).status? other = if txn = other then some status else l.status? other :=
  KeyMap.getInsert ..

end Ledger
end PagedHeap
