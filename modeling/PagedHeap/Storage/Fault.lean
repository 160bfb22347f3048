import PagedHeap.Error

/-! Calls to a volume, and a script of calls that go wrong. An entry of the script
meets calls of one kind, on one page or on any, as often as its count says; the first
entry that meets a call and has some of its count left spends one of it. Calls that
name no page are met only by entries that name none. Verdicts come before the script:
each settles one call of its kind, the next one to come, for good or for ill. -/
namespace PagedHeap

inductive Call where
  | read (page : UInt32)
  | write (page : UInt32)
  | allocate
  deriving DecidableEq, Repr

def Call.text : Call → String
  | .read page => s!"r{page.toNat}"
  | .write page => s!"w{page.toNat}"
  | .allocate => "a"

/-- The points at which a script can step in. A fill does not fail the call: it lets
an allocation hand out a page with all bits set. -/
inductive FaultPoint where
  | read
  | write
  | allocate
  | count
  | fill
  deriving DecidableEq, Repr

structure Fault where
  point : FaultPoint
  page : Option UInt32
  left : Nat
  cause : IoError
  deriving DecidableEq, Repr

namespace Fault

def meets (f : Fault) (point : FaultPoint) (page : Option UInt32) : Bool :=
  f.point = point && 0 < f.left && (f.page = none || f.page = page)

def take (point : FaultPoint) (page : Option UInt32) :
    List Fault → Option (IoError × List Fault)
  | [] => none
  | f :: rest =>
    if f.meets point page then some (f.cause, {f with left := f.left - 1} :: rest)
    else (take point page rest).map (fun hit => (hit.1, f :: hit.2))

end Fault

/-- What becomes of the next call of a kind, as far as that is settled beforehand. -/
structure Verdict where
  point : FaultPoint
  cause : Option IoError
  deriving DecidableEq, Repr

namespace Verdict

def take (point : FaultPoint) : List Verdict → Option (Option IoError × List Verdict)
  | [] => none
  | v :: rest =>
    if v.point = point then some (v.cause, rest)
    else (take point rest).map (fun hit => (hit.1, v :: hit.2))

end Verdict
end PagedHeap
