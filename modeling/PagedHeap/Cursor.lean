import PagedHeap.Pool.Placement

/-! Walks over the records of a table, page by page and slot by slot. With a
transaction every page is locked when the walk comes to it, and the lock stays;
without one nothing is locked. A page is looked at again for every record, so a walk
sees what becomes of the copy it is on. -/
namespace PagedHeap

inductive Position where
  | unopened
  | onPage (number : UInt32) (slot : Nat) (frame : Frame)
  | exhausted
  deriving DecidableEq, Repr

structure Cursor where
  file : HeapFile
  txn : Option TxnId
  position : Position
  deriving DecidableEq, Repr

namespace HeapFile

/- The frame of a page, or nothing past the end of the file. -/
def visit (f : HeapFile) (txn : Option TxnId) (number : UInt32) :
    Activity Pool (Option Frame) := do
  let count ← Pool.onStorage f.count
  if count ≤ number then pure none
  else match txn with
    | some txn => some <$> Pool.getPage txn ⟨f.table, number⟩ .shared
    | none => some <$> monadLift (Pool.fetch ⟨f.table, number⟩)

def walk (f : HeapFile) (txn : Option TxnId) : Nat → UInt32 → Activity Pool (List Record)
  | 0, _ => pure []
  | left + 1, number => do
    match ← f.visit txn number with
    | none => pure []
    | some frame => return frame.page.records ++ (← f.walk txn left (number + 1))

def scan (f : HeapFile) (txn : Option TxnId) : Activity Pool (List Record) :=
  f.walk txn UInt32.size 0

end HeapFile

namespace Cursor

def ofFile (file : HeapFile) (txn : Option TxnId) : Cursor := ⟨file, txn, .unopened⟩

def rewind (c : Cursor) : Cursor := {c with position := .unopened}

/- The next record of a page at or after a slot, and the position behind it. -/
def take (page : Page) (number : UInt32) (slot : Nat) (frame : Frame) :
    Option (Record × Position) := do
  let used ← page.nextUsed? slot
  let record ← page.get? used
  pure (record, .onPage number (used + 1) frame)

def seek (c : Cursor) : Nat → UInt32 → Activity Pool (Option Record × Position)
  | 0, _ => pure (none, .exhausted)
  | left + 1, number => do
    match ← c.file.visit c.txn number with
    | none => pure (none, .exhausted)
    | some frame =>
      match take frame.page number 0 frame with
      | some (record, position) => pure (some record, position)
      | none => c.seek left (number + 1)

def step (c : Cursor) : Activity Pool (Option Record × Position) :=
  match c.position with
  | .exhausted => pure (none, .exhausted)
  | .unopened => c.seek UInt32.size 0
  | .onPage number slot frame => do
    match take ((← (get : Instant Pool Pool)).latest frame) number slot frame with
    | some (record, position) => pure (some record, position)
    | none => c.seek UInt32.size (number + 1)

/-- The next record, nothing at the end. A failure ends the walk. -/
def next (c : Cursor) : Activity Pool (Except Error (Option Record) × Cursor) := do
  match ← c.step.attempt with
  | .ok (record, position) => pure (.ok record, {c with position})
  | .error e => pure (.error e, {c with position := .exhausted})

end Cursor
end PagedHeap
