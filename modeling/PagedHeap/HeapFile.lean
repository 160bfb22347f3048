import PagedHeap.Page.Basic
import PagedHeap.Storage.Basic

/-! The pages of one table on a volume. A heap file never serves pages of another
table. -/
namespace PagedHeap

structure HeapFile where
  table : TableId
  layout : Layout
  volume : VolumeId
  deriving DecidableEq, Repr

namespace HeapFile

def onVolume (table : TableId) (width : Nat) (v : VolumeId) : Instant Storage HeapFile := do
  let layout ← demand Storage (Layout.ofSizes ((← get).pageSize v) width)
  pure ⟨table, layout, v⟩

def onFile (name : String) (table : TableId) (width pageSize : Nat) :
    Instant Storage HeapFile := do
  onVolume table width (← Storage.openFile name pageSize)

def checkTable (f : HeapFile) (page : PageId) : Except Misuse Unit :=
  if page.table = f.table then .ok () else .error (.foreignPage page f.table)

def readPage (f : HeapFile) (page : PageId) : Instant Storage Page := do
  demand Storage (f.checkTable page)
  let image ← Storage.read f.volume page.number f.layout.pageSize
  demand Storage (Page.ofImage page f.layout image)

def writePage (f : HeapFile) (page : Page) : Instant Storage Unit := do
  demand Storage (f.checkTable page.id)
  Storage.write f.volume page.id.number page.image

def count (f : HeapFile) : Instant Storage UInt32 := Storage.count f.volume

def allocate (f : HeapFile) : Instant Storage PageId := do
  pure ⟨f.table, ← Storage.allocate f.volume⟩

end HeapFile
end PagedHeap
