import PagedHeap.Lock.Table

/-! A wait for a lock. The clock is read before every look but the first; once it
shows more than the threshold the wait is given up. Between two looks others may do
what they like with the table. -/
namespace PagedHeap

/-- One turn of a wait: the time on the clock, and what others do before the next look. -/
structure Turn where
  waited : Nat
  others : LockTable → LockTable

inductive Ending where
  | granted
  | timedOut
  | waiting
  deriving DecidableEq, Repr

namespace LockTable

def await (wanted : Lock) (threshold : Nat) : List Turn → LockTable → Ending × LockTable
  | [], t => (.waiting, t)
  | turn :: rest, t =>
    if threshold < turn.waited then (.timedOut, t)
    else match (turn.others t).request wanted with
      | (true, t) => (.granted, t)
      | (false, t) => await wanted threshold rest t

def acquire (wanted : Lock) (threshold : Nat) (turns : List Turn) (t : LockTable) :
    Ending × LockTable :=
  match t.request wanted with
  | (true, t) => (.granted, t)
  | (false, t) => await wanted threshold turns t

def expired (threshold : Nat) : Turn := ⟨threshold + 1, id⟩

theorem acquireGranted {wanted : Lock} {t u : LockTable} (h : t.request wanted = (true, u))
    (threshold : Nat) (turns : List Turn) : t.acquire wanted threshold turns = (.granted, u) := by
  simp only [acquire, h]

theorem acquireExpired {wanted : Lock} {t : LockTable} (h : (t.request wanted).1 = false)
    (threshold : Nat) : t.acquire wanted threshold [expired threshold] = (.timedOut, t) := by
  simp only [acquire, requestRefused h, await, expired, Nat.lt_succ_self, if_true]

theorem acquireWaiting {wanted : Lock} {t : LockTable} (h : (t.request wanted).1 = false)
    (threshold : Nat) : t.acquire wanted threshold [] = (.waiting, t) := by
  simp only [acquire, requestRefused h, await]

end LockTable
end PagedHeap
