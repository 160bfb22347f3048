/-! Where a transaction is in its life. A transaction that nobody began has no
status at all. -/
namespace PagedHeap

inductive Status where
  | running
  | aborted
  | committed
  deriving DecidableEq, Repr

def Status.text : Status → String
  | .running => "Running"
  | .aborted => "Aborted"
  | .committed => "Committed"

end PagedHeap
