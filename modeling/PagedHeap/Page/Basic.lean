import PagedHeap.Record
import PagedHeap.Page.Layout
import PagedHeap.Page.Bits

/-! A page in memory: its image, and the transaction that last changed it. An image
has the length of its layout's pages by construction; the bits say nothing about who
wrote them, so any image of that length is a page. Changing a record does not mark
the page: that is for the caller, who knows the transaction. -/
namespace PagedHeap

structure Page where
  id : PageId
  layout : Layout
  image : Bytes
  dirtiedBy : Option TxnId
  whole : image.length = layout.pageSize
  deriving DecidableEq, Repr

namespace Page

def blank (id : PageId) (layout : Layout) : Page :=
  ⟨id, layout, layout.blankImage, none, List.length_replicate⟩

/- A clean page with the given image, which must have the layout's length. -/
def ofImage (id : PageId) (layout : Layout) (image : Bytes) : Except Misuse Page :=
  if h : image.length = layout.pageSize then .ok ⟨id, layout, image, none, h⟩
  else .error (.imageLength id image.length layout.pageSize)

def markDirty (p : Page) (txn : TxnId) : Page := {p with dirtiedBy := some txn}

def markClean (p : Page) : Page := {p with dirtiedBy := none}

def isDirty (p : Page) : Bool := p.dirtiedBy.isSome

def slots (p : Page) : Nat := p.layout.slots

def isUsed (p : Page) (slot : Nat) : Bool := slot < p.slots && Bits.test p.image slot

def setUsed (p : Page) (slot : Nat) (on : Bool) : Page :=
  {p with
    image := Bits.write p.image slot on
    whole := (Bits.writeLength _ _ _).trans p.whole}

def freeSlots (p : Page) : List Nat := (List.range p.slots).filter (fun s => !p.isUsed s)

def freeCount (p : Page) : Nat := p.freeSlots.length

def hasRoom (p : Page) : Bool := (List.range p.slots).any (fun s => !p.isUsed s)

def freeSlot? (p : Page) : Option Nat := (List.range p.slots).find? (fun s => !p.isUsed s)

def slotBytes (p : Page) (slot : Nat) : Bytes :=
  Bytes.slice p.image (p.layout.offset slot) p.layout.recordWidth

theorem freeSlotBound {p : Page} {slot : Nat} (h : p.freeSlot? = some slot) : slot < p.slots :=
  List.mem_range.mp (List.mem_of_find?_eq_some h)

def withBytes (p : Page) (slot : Nat) (data : Bytes)
    (fits : p.layout.offset slot + data.length ≤ p.image.length) : Page :=
  {p with
    image := Bytes.splice p.image (p.layout.offset slot) data
    whole := (Bytes.spliceLength fits).trans p.whole}

theorem dataFits {p : Page} {slot : Nat} {data : Bytes} (takes : p.layout.Takes data)
    (h : slot < p.slots) : p.layout.offset slot + data.length ≤ p.image.length := by
  rw [takes.1, p.whole]
  exact p.layout.offsetBound takes.2 h

/-- Stores the bytes in the first free slot. The width is looked at before the room. -/
def insert (p : Page) (data : Bytes) : Except Misuse (Rid × Page) :=
  if takes : p.layout.Takes data then
    match free : p.freeSlot? with
    | none => .error (.pageFull p.id)
    | some slot =>
      let stored := p.withBytes slot data (dataFits takes (freeSlotBound free))
      .ok (⟨p.id, UInt32.ofNat slot⟩, stored.setUsed slot true)
  else .error (.recordWidth data.length p.id p.layout.recordWidth)

/-- Frees the slot of a record that lives here. Its bytes stay behind. -/
def delete (p : Page) (rid : Option Rid) : Except Misuse Page :=
  match rid with
  | none => .error .noRid
  | some ⟨home, slot⟩ =>
    if home ≠ p.id then .error (.otherPage home p.id)
    else if p.isUsed slot.toNat then .ok (p.setUsed slot.toNat false)
    else .error (.slotEmpty slot.toNat p.id)

def get? (p : Page) (slot : Nat) : Option Record :=
  if p.isUsed slot then some ⟨some ⟨p.id, UInt32.ofNat slot⟩, p.slotBytes slot⟩ else none

def nextUsed? (p : Page) (slot : Nat) : Option Nat :=
  (List.range p.slots).find? (fun s => slot ≤ s && p.isUsed s)

def records (p : Page) : List Record := (List.range p.slots).filterMap p.get?

def reload (p : Page) : Page := p.markClean

end Page
end PagedHeap
