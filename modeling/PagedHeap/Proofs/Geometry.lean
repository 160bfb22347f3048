import Mathlib.Algebra.Order.Floor.Div
import Mathlib.Order.Interval.Finset.Nat
import PagedHeap.Page.Layout
import PagedHeap.Page.Bits

/-! Where the bytes and bits of a page are. The header and the slots share no byte and stay inside
the page, no two slots share a bit of the header, and one more slot would not fit. -/
namespace PagedHeap.Layout

section Words
variable {pageSize width : Nat} (bits : pageSize * 8 < UInt64.size)
  (price : width * 8 + 1 < UInt64.size)
include bits price

theorem slotsInWords : slotsIn pageSize width = pageSize * 8 / (width * 8 + 1) := by
  rw [slotsIn, Nat.mod_eq_of_lt bits, Nat.mod_eq_of_lt price]

theorem ofSizesIff :
    (∃ layout, ofSizes pageSize width = .ok layout) ↔ 0 < width ∧ width < pageSize := by
  have slot : 0 < slotsIn pageSize width ↔ width < pageSize := by
    rw [slotsInWords bits price, Nat.div_pos_iff]
    omega
  unfold ofSizes
  split
  · rename_i fits
    exact ⟨fun _ => ⟨fits.1, slot.mp fits.2⟩, fun _ => ⟨_, rfl⟩⟩
  · rename_i unfit
    refine ⟨?_, fun fits => absurd ⟨fits.1, slot.mpr fits.2⟩ unfit⟩
    rintro ⟨layout, made⟩
    cases made

end Words

theorem ofSizesKeeps {pageSize width : Nat} {l : Layout} (made : ofSizes pageSize width = .ok l) :
    l.pageSize = pageSize ∧ l.recordWidth = width := by
  unfold ofSizes at made
  split at made <;> cases made
  exact ⟨rfl, rfl⟩

/- The places of bytes in a page. -/

def pageSpan (l : Layout) : Finset Nat := Finset.range l.pageSize

def headerSpan (l : Layout) : Finset Nat := Finset.range l.header

def slotSpan (l : Layout) (slot : Nat) : Finset Nat :=
  Finset.Ico (l.offset slot) (l.offset slot + l.recordWidth)

/- The bytes that so many slots take, with a bit for each of them rounded up to whole bytes. -/
def price (width slots : Nat) : Nat := slots ⌈/⌉ 8 + slots * width

structure Tiled (l : Layout) : Prop where
  header : l.headerSpan ⊆ l.pageSpan
  slots : ∀ slot, slot < l.slots → l.slotSpan slot ⊆ l.pageSpan
  behind : ∀ slot, slot < l.slots → Disjoint l.headerSpan (l.slotSpan slot)
  apart : ∀ slot other, slot < l.slots → other < l.slots → slot ≠ other →
    Disjoint (l.slotSpan slot) (l.slotSpan other)
  marks : ∀ slot, slot < l.slots → slot / 8 ∈ l.headerSpan
  ownMark : ∀ slot other : Nat, slot / 8 = other / 8 → slot % 8 = other % 8 → slot = other
  switches : ∀ (image : Bytes) slot on, image.length = l.pageSize → slot < l.slots →
    (∀ other, Bits.test (Bits.write image slot on) other =
      if slot = other then on else Bits.test image other) ∧
    ∀ byte, byte ∉ l.headerSpan → (Bits.write image slot on)[byte]? = image[byte]?
  most : IsGreatest {slots | price l.recordWidth slots ≤ l.pageSize} l.slots

theorem ceilingOfEight (slots : Nat) : slots ⌈/⌉ 8 = headerFor slots :=
  Nat.ceilDiv_eq_add_pred_div slots 8

theorem slotSpanInside (l : Layout) (narrow : l.Narrow) {slot : Nat} (inside : slot < l.slots) :
    l.slotSpan slot ⊆ l.pageSpan := by
  have bound := l.offsetBound narrow inside
  intro byte there
  have last := (Finset.mem_Ico.mp there).2
  exact Finset.mem_range.mpr (Nat.lt_of_lt_of_le last bound)

theorem slotSpanBehind (l : Layout) (slot : Nat) : Disjoint l.headerSpan (l.slotSpan slot) := by
  refine Finset.disjoint_left.mpr fun byte inHeader inSlot => ?_
  have before := Finset.mem_range.mp inHeader
  have start := (Finset.mem_Ico.mp inSlot).1
  rw [offset] at start
  omega

theorem slotSpanBefore (l : Layout) {slot other : Nat} (before : slot < other) :
    Disjoint (l.slotSpan slot) (l.slotSpan other) := by
  have step : (slot + 1) * l.recordWidth ≤ other * l.recordWidth := Nat.mul_le_mul_right _ before
  rw [Nat.add_mul, Nat.one_mul] at step
  refine Finset.disjoint_left.mpr fun byte first second => ?_
  have last := (Finset.mem_Ico.mp first).2
  have start := (Finset.mem_Ico.mp second).1
  simp only [offset] at last start
  omega

theorem switchesAlone (l : Layout) {image : Bytes} {slot : Nat} (on : Bool)
    (whole : image.length = l.pageSize) (inside : slot < l.slots) :
    (∀ other, Bits.test (Bits.write image slot on) other =
      if slot = other then on else Bits.test image other) ∧
    ∀ byte, byte ∉ l.headerSpan → (Bits.write image slot on)[byte]? = image[byte]? := by
  have mark := l.headerBound inside
  have present : slot / 8 < image.length :=
    whole ▸ Nat.lt_of_lt_of_le mark l.headerInPage
  refine ⟨fun other => Bits.testWrite present other on, fun byte outside => ?_⟩
  have apart : slot / 8 ≠ byte := fun same => outside (Finset.mem_range.mpr (same ▸ mark))
  simp [Bits.write, apart]

theorem mostSlots (l : Layout) (bits : l.pageSize * 8 < UInt64.size) (narrow : l.Narrow) :
    IsGreatest {slots | price l.recordWidth slots ≤ l.pageSize} l.slots := by
  refine ⟨?_, fun slots fits => ?_⟩
  · change l.slots ⌈/⌉ 8 + l.slots * l.recordWidth ≤ l.pageSize
    rw [ceilingOfEight]
    exact l.slotsFit narrow
  · change slots ⌈/⌉ 8 + slots * l.recordWidth ≤ l.pageSize at fits
    rw [ceilingOfEight, headerFor] at fits
    rw [Layout.slots, slotsInWords bits narrow]
    refine (Nat.le_div_iff_mul_le (Nat.succ_pos _)).mpr ?_
    change slots * (l.recordWidth * 8 + 1) ≤ l.pageSize * 8
    rw [Nat.mul_add, Nat.mul_one, ← Nat.mul_assoc]
    omega

theorem tiled (l : Layout) (bits : l.pageSize * 8 < UInt64.size) (narrow : l.Narrow) : l.Tiled where
  header := Finset.range_subset_range.mpr l.headerInPage
  slots _ := l.slotSpanInside narrow
  behind slot _ := l.slotSpanBehind slot
  apart slot other _ _ apart := by
    rcases Nat.lt_or_gt_of_ne apart with before | behind
    · exact l.slotSpanBefore before
    · exact (l.slotSpanBefore behind).symm
  marks _ inside := Finset.mem_range.mpr (l.headerBound inside)
  ownMark slot other byte bit := by omega
  switches _ _ on := l.switchesAlone on
  most := l.mostSlots bits narrow

/-- While bits are counted without wrapping around, a layout is accepted if records have a width
and one of them fits into a page behind a byte of header. Then the page is laid out soundly, and no
page of that size could hold more slots. -/
theorem pagesTiled (pageSize recordWidth : Nat) (bits : pageSize * 8 < UInt64.size)
    (price : recordWidth * 8 + 1 < UInt64.size) :
    ((∃ l, ofSizes pageSize recordWidth = .ok l) ↔ 0 < recordWidth ∧ recordWidth + 1 ≤ pageSize) ∧
    ∀ l, ofSizes pageSize recordWidth = .ok l →
      l.pageSize = pageSize ∧ l.recordWidth = recordWidth ∧ l.Tiled := by
  refine ⟨ofSizesIff bits price, fun l made => ?_⟩
  obtain ⟨page, width⟩ := ofSizesKeeps made
  refine ⟨page, width, l.tiled ?_ ?_⟩
  · rwa [page]
  · rwa [Narrow, width]

theorem sampleTiled : 9 * 8 < UInt64.size ∧ 1 * 8 + 1 < UInt64.size ∧
    ∃ l, ofSizes 9 1 = .ok l ∧ l.slots = 8 ∧ l.header = 1 ∧
      l.offset 7 + l.recordWidth = l.pageSize ∧ l.Tiled := by
  have made : ofSizes 9 1 = .ok ⟨9, 1, by decide, by decide⟩ := rfl
  obtain ⟨_, _, tiled⟩ := (pagesTiled 9 1 (by decide) (by decide)).2 _ made
  exact ⟨by decide, by decide, _, made, rfl, rfl, rfl, tiled⟩

end PagedHeap.Layout
