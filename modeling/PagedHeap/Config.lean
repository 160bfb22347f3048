import PagedHeap.Lock.Patience

/-! What an engine is set up with. All tables of one engine have its page size. -/
namespace PagedHeap

structure Config where
  pageSize : Nat := 4096
  poolSize : Nat := 50
  patience : Patience := {}
  deriving DecidableEq, Repr

end PagedHeap
