import PagedHeap.Pool.Basic

/-! Records in and out of tables. A new record goes to the first free slot of the first
page with room; a page is added if there is none. -/
namespace PagedHeap

namespace HeapFile

/-- The first page with room among the given ones. A lock that was taken only to look
at a full page is given back: nothing was read there. -/
def firstWithRoom (f : HeapFile) (txn : TxnId) : List UInt32 → Activity Pool (Option PageId)
  | [] => pure none
  | number :: rest => do
    let page : PageId := ⟨f.table, number⟩
    let held ← Pool.holds txn page
    let frame ← Pool.getPage txn page .shared
    if frame.page.hasRoom then pure (some page)
    else do
      Pool.releaseProbe held txn page
      f.firstWithRoom txn rest

def pageWithRoom (f : HeapFile) (txn : TxnId) : Activity Pool PageId := do
  let count ← Pool.onStorage f.count
  match ← f.firstWithRoom txn ((List.range count.toNat).map UInt32.ofNat) with
  | some page => pure page
  | none => Pool.onStorage f.allocate

def fill (txn : TxnId) (data : Bytes) (frame : Frame) : Instant Pool (Rid × Frame) := do
  let (rid, page) ← demand Pool (frame.page.insert data)
  let changed : Frame := {frame with page := page.markDirty txn}
  Pool.write changed
  pure (rid, changed)

/- A page may turn out to be full once it is owned; then another one is looked for. -/
def insertWithin (f : HeapFile) (txn : TxnId) (data : Bytes) :
    Nat → Activity Pool (Rid × Frame)
  | 0 => .fail (.invalid (.pageFull ⟨f.table, 0⟩))
  | tries + 1 => do
    let home ← f.pageWithRoom txn
    let frame ← Pool.getPage txn home .exclusive
    if frame.page.hasRoom then fill txn data frame else f.insertWithin txn data tries

def checkWidth (f : HeapFile) (data : Bytes) : Except Misuse Unit :=
  if f.layout.Takes data then .ok ()
  else .error (.tableWidth data.length f.table f.layout.recordWidth)

/-- Every page that turns out to be full was added a moment before, and there are only
so many page numbers. -/
def insert (f : HeapFile) (txn : TxnId) (data : Bytes) : Activity Pool (Rid × Frame) := do
  demand Pool (f.checkWidth data)
  f.insertWithin txn data UInt32.size

def checkRid : Option Rid → Except Misuse Rid
  | some rid => .ok rid
  | none => .error .noRid

def checkEnd (f : HeapFile) (count : UInt32) (page : PageId) : Except Misuse Unit :=
  if count ≤ page.number then .error (.pastEnd page f.table) else .ok ()

def clear (txn : TxnId) (rid : Rid) (frame : Frame) : Instant Pool Frame := do
  let page ← demand Pool (frame.page.delete (some rid))
  let changed : Frame := {frame with page := page.markDirty txn}
  Pool.write changed
  pure changed

def delete (f : HeapFile) (txn : TxnId) (rid : Option Rid) : Activity Pool Frame := do
  let rid ← demand Pool (checkRid rid)
  demand Pool (f.checkTable rid.page)
  let count ← Pool.onStorage f.count
  demand Pool (f.checkEnd count rid.page)
  let frame ← Pool.getPage txn rid.page .exclusive
  clear txn rid frame

end HeapFile

namespace Pool

/-- Makes a changed frame the one copy of its page in the cache. -/
def pin (txn : TxnId) (f : Frame) : Instant Pool Unit := do
  let frame : Frame := {f with page := ((← get).latest f).markDirty txn}
  write frame
  makeRoomFor frame.page.id
  modify (·.place frame)

def insert (txn : TxnId) (table : TableId) (data : Bytes) : Activity Pool Rid := do
  let file ← Pool.table table
  let (rid, frame) ← file.insert txn data
  pin txn frame
  pure rid

def delete (txn : TxnId) (rid : Option Rid) : Activity Pool Unit := do
  let place ← demand Pool (HeapFile.checkRid rid)
  let file ← Pool.table place.page.table
  let frame ← file.delete txn (some place)
  pin txn frame

end Pool
end PagedHeap
