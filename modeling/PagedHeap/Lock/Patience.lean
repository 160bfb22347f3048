/-! How long a wait for a lock may last, in microseconds. A wait ends at the base
time and a number of whole milliseconds drawn for it, so that two transactions which
wait for each other seldom give up together. Looks at the lock lie at most one poll
apart. -/
namespace PagedHeap

structure Patience where
  base : Nat := 200000
  jitter : Nat := 400000
  poll : Nat := 50000
  deriving DecidableEq, Repr

namespace Patience

def spread (p : Patience) : Nat := p.jitter / 1000

def longest (p : Patience) : Nat := p.base + p.spread * 1000

def threshold (p : Patience) (draw : Nat) : Nat := p.base + draw % (p.spread + 1) * 1000

def fixed? (p : Patience) : Option Nat := if p.spread = 0 then some p.base else none

def admits (p : Patience) (time : Nat) : Bool := p.base ≤ time && time ≤ p.longest

end Patience
end PagedHeap
