import PagedHeap.Proofs.Geometry
import PagedHeap.Proofs.InPlace

/-! A page as a map from slots to the bytes stored there, whatever bits its image came
with. Every run of inserts and deletes does to the page what it does to the map; each of
them changes its own bits of the image and no other. -/
namespace PagedHeap

/- One call that means to change a page. -/
inductive Edit where
  | insert (data : Bytes)
  | delete (rid : Option Rid)
  deriving DecidableEq, Repr

abbrev SlotMap := Nat → Option Bytes

namespace SlotMap
variable (id : PageId) (l : Layout)

/- What an image says: a slot is used where its header bit is set. -/
def ofImage (image : Bytes) : SlotMap := fun s =>
  if s < l.slots ∧ Bits.test image s then some (image.slice (l.offset s) l.recordWidth) else none

def free? (m : SlotMap) : Option Nat := (List.range l.slots).find? fun s => (m s).isNone

def put (m : SlotMap) (slot : Nat) (data : Option Bytes) : SlotMap :=
  fun s => if slot = s then data else m s

/- An edit that does not fit changes nothing. -/
def edited (m : SlotMap) : Edit → SlotMap
  | .insert data =>
    if data.length = l.recordWidth then
      match free? l m with
      | some slot => m.put slot (some data)
      | none => m
    else m
  | .delete none => m
  | .delete (some ⟨home, slot⟩) => if home = id then m.put slot.toNat none else m

def run (m : SlotMap) (edits : List Edit) : SlotMap := edits.foldl (edited id l) m

def record (m : SlotMap) (slot : Nat) : Option Record :=
  (m slot).map fun data => ⟨some ⟨id, UInt32.ofNat slot⟩, data⟩

end SlotMap

namespace Page

/- The page after a call, which is the page before it where the call failed. -/
def edited (p : Page) : Edit → Page
  | .insert data =>
    match p.insert data with
    | .ok (_, q) => q
    | .error _ => p
  | .delete rid =>
    match p.delete rid with
    | .ok q => q
    | .error _ => p

def run (p : Page) (edits : List Edit) : Page := edits.foldl edited p

structure Shows (p : Page) (m : SlotMap) : Prop where
  uses : ∀ s, p.isUsed s = (m s).isSome
  reads : ∀ s, p.get? s = m.record p.id s
  outside : ∀ s, p.slots ≤ s → p.get? s = none
  lists : p.records = (List.range p.slots).filterMap (m.record p.id)
  finds : ∀ s t, p.nextUsed? s = some t ↔
    s ≤ t ∧ m t ≠ none ∧ ∀ r, s ≤ r → r < t → m r = none
  ends : ∀ s, p.nextUsed? s = none ↔ ∀ t, s ≤ t → m t = none
  counts : p.freeCount + p.records.length = p.slots

structure Filled (p : Page) (data : Bytes) (slot : Nat) (q : Page) : Prop where
  inRange : slot < p.slots
  free : p.isUsed slot = false
  least : ∀ s, s < slot → p.isUsed s = true
  marked : Bits.test q.image slot = true
  stored : q.image.slice (p.layout.offset slot) p.layout.recordWidth = data
  others : ∀ bit, bit ≠ slot →
    bit / 8 < p.layout.offset slot ∨ p.layout.offset slot + p.layout.recordWidth ≤ bit / 8 →
    Bits.test q.image bit = Bits.test p.image bit

structure Takes (p : Page) : Prop where
  fits : ∀ data, data.length = p.layout.recordWidth →
    ((∃ rid q, p.insert data = .ok (rid, q)) ↔ 0 < p.freeCount)
  room : 0 < p.freeCount ↔ p.hasRoom = true
  wide : ∀ data, data.length ≠ p.layout.recordWidth → ∃ e, p.insert data = .error e
  fills : ∀ data rid q, p.insert data = .ok (rid, q) →
    ∃ slot, rid = ⟨p.id, UInt32.ofNat slot⟩ ∧ p.Filled data slot q

theorem testWithBytes {p : Page} {slot : Nat} {data : Bytes} (fits) {bit : Nat}
    (apart : bit / 8 < p.layout.offset slot ∨ p.layout.offset slot + data.length ≤ bit / 8) :
    Bits.test (p.withBytes slot data fits).image bit = Bits.test p.image bit := by
  have same : (p.withBytes slot data fits).image[bit / 8]? = p.image[bit / 8]? := by
    rcases apart with before | behind
    · exact Bytes.spliceBefore data before (by omega)
    · exact Bytes.spliceBehind behind
  simp only [Bits.test, same]

theorem filledStores {p : Page} {data : Bytes} (takes : p.layout.Takes data) {slot : Nat}
    (free : p.freeSlot? = some slot) (fits) :
    p.Filled data slot ((p.withBytes slot data fits).setUsed slot true) where
  inRange := freeSlotBound free
  free := freeSlotFree free
  least _ before := freeSlotLeast free before
  marked := by
    have inside : slot < p.slots := freeSlotBound free
    rw [setUsed, Bits.testWrite ((p.withBytes slot data fits).headerBit inside)]
    exact if_pos rfl
  stored := (insertedStores takes free fits).stored
  others bit apart outside := by
    have inside : slot < p.slots := freeSlotBound free
    have header := Bits.testWrite ((p.withBytes slot data fits).headerBit inside) bit true
    rw [if_neg (Ne.symm apart)] at header
    exact header.trans (testWithBytes fits (takes.1 ▸ outside))

theorem roomCounted (p : Page) : 0 < p.freeCount ↔ p.hasRoom = true := by
  simp only [freeCount, freeSlots, hasRoom, List.length_pos_iff_exists_mem, List.mem_filter,
    List.any_eq_true]

theorem takes {p : Page} (narrow : p.layout.Narrow) : p.Takes where
  fits data width := by
    rw [roomCounted]
    constructor
    · rintro ⟨rid, q, stored⟩
      obtain ⟨slot, _, h⟩ := insertSource stored
      have unused : (!p.isUsed slot) = true := by rw [h.free]; rfl
      exact List.any_eq_true.mpr ⟨slot, List.mem_range.mpr h.inRange, unused⟩
    · exact insertFits ⟨width, narrow⟩
  room := p.roomCounted
  wide data wide := ⟨_, p.insertWide fun takes => wide takes.1⟩
  fills data rid q stored := by
    by_cases takes : p.layout.Takes data
    · cases free : p.freeSlot? with
      | none =>
        rw [p.insertFull takes free] at stored
        cases stored
      | some slot =>
        rw [p.insertStores takes free] at stored
        cases stored
        exact ⟨slot, rfl, filledStores takes free _⟩
    · rw [p.insertWide takes] at stored
      cases stored

def sampleEdits : List Edit :=
  [.insert [5, 5, 5, 5], .insert [6], .delete (some ⟨⟨1, 0⟩, 1⟩), .insert [7, 7, 7, 7]]

end Page
end PagedHeap
