import PagedHeap.Error
import PagedHeap.Bytes

/-! Geometry of a page: a header with one bit a slot, then the slots side by side.
A slot costs its record and one header bit, so as many slots fit as that price goes
into the page. Bytes behind the last slot are padding and never read. Bits are counted
in words of 64 bits, and a product that leaves the word wraps around. -/
namespace PagedHeap
namespace Layout

def slotsIn (pageSize recordWidth : Nat) : Nat :=
  pageSize * 8 % UInt64.size / ((recordWidth * 8 + 1) % UInt64.size)

def headerFor (slots : Nat) : Nat := (slots + 7) / 8

end Layout

structure Layout where
  pageSize : Nat
  recordWidth : Nat
  widthPositive : 0 < recordWidth
  holdsOne : 0 < Layout.slotsIn pageSize recordWidth
  deriving DecidableEq, Repr

namespace Layout

def ofSizes (pageSize recordWidth : Nat) : Except Misuse Layout :=
  if h : 0 < recordWidth ∧ 0 < slotsIn pageSize recordWidth then
    .ok ⟨pageSize, recordWidth, h.1, h.2⟩
  else .error (.recordBeyondPage recordWidth pageSize)

def slots (l : Layout) : Nat := slotsIn l.pageSize l.recordWidth

def header (l : Layout) : Nat := headerFor l.slots

def offset (l : Layout) (slot : Nat) : Nat := l.header + slot * l.recordWidth

def blankImage (l : Layout) : Bytes := List.replicate l.pageSize 0

/-- The price of a slot is a word. Otherwise the slots reach over the end of the page. -/
def Narrow (l : Layout) : Prop := l.recordWidth * 8 + 1 < UInt64.size

instance (l : Layout) : Decidable l.Narrow := inferInstanceAs (Decidable (_ < _))

/- Data for a slot. None are so long that the price of the slot wraps around. -/
def Takes (l : Layout) (data : Bytes) : Prop := data.length = l.recordWidth ∧ l.Narrow

instance (l : Layout) (data : Bytes) : Decidable (l.Takes data) :=
  inferInstanceAs (Decidable (_ ∧ _))

theorem slotsAtMost (l : Layout) : l.slots ≤ l.pageSize * 8 :=
  Nat.le_trans (Nat.div_le_self _ _) (Nat.mod_le _ _)

/- The two roundings, down in the number of slots and up in the header, never add
up to more than the page. -/
theorem slotsFit (l : Layout) (narrow : l.Narrow) :
    l.header + l.slots * l.recordWidth ≤ l.pageSize := by
  have whole : l.pageSize * 8 % UInt64.size ≤ l.pageSize * 8 := Nat.mod_le _ _
  have price : l.slots * ((l.recordWidth * 8 + 1) % UInt64.size) ≤ l.pageSize * 8 % UInt64.size :=
    Nat.div_mul_le_self _ _
  rw [Nat.mod_eq_of_lt narrow, Nat.mul_add, Nat.mul_one, ← Nat.mul_assoc] at price
  simp only [header, headerFor]
  omega

theorem sizePositive (l : Layout) : 0 < l.pageSize := by
  refine Nat.pos_of_ne_zero fun none => ?_
  have one : 0 < l.slots := l.holdsOne
  have most := l.slotsAtMost
  omega

theorem offsetBound (l : Layout) (narrow : l.Narrow) {slot : Nat} (h : slot < l.slots) :
    l.offset slot + l.recordWidth ≤ l.pageSize := by
  have fit := l.slotsFit narrow
  have step : (slot + 1) * l.recordWidth ≤ l.slots * l.recordWidth := Nat.mul_le_mul_right _ h
  rw [Nat.add_mul, Nat.one_mul] at step
  simp only [offset]
  omega

theorem headerBound (l : Layout) {slot : Nat} (h : slot < l.slots) : slot / 8 < l.header := by
  simp only [header, headerFor]
  omega

theorem headerInPage (l : Layout) : l.header ≤ l.pageSize := by
  have most := l.slotsAtMost
  simp only [header, headerFor]
  omega

end Layout
end PagedHeap
