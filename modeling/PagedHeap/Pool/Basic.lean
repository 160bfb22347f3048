import PagedHeap.Config
import PagedHeap.HeapFile
import PagedHeap.Lock.Wait

/-! A bounded cache of pages, and the locks on them. A page that a transaction has
changed stays until the transaction ends, so what is not committed is never written
and an abort only has to forget.

A frame is one copy of a page in memory. It outlives its stay in the cache for those
who still look at it; a page that is read again gets a frame of its own. -/
namespace PagedHeap

abbrev FrameId := Nat

structure Frame where
  id : FrameId
  page : Page
  deriving DecidableEq, Repr

structure Pool where
  capacity : Nat
  patience : Patience
  storage : Storage
  tables : KeyMap TableId HeapFile
  resident : KeyMap PageId Frame
  /-- Frames that are no longer in the cache. -/
  gone : List Frame
  nextFrame : FrameId
  /-- Frames that somebody is writing to at the moment. -/
  latched : List FrameId
  locks : LockTable
  /-- What is left to chance, one number for each time to come: which of several victims goes, and
  in what order all pages are written back. -/
  draws : List Nat
  deriving DecidableEq, Repr

namespace Pool

def ofConfig (config : Config) (storage : Storage) : Pool :=
  ⟨config.poolSize, config.patience, storage, .empty, .empty, [], 0, [], .empty, []⟩

def storagePart : Part Pool Storage := ⟨Pool.storage, fun p storage => {p with storage},
  fun _ _ => rfl, fun _ _ _ => rfl⟩

def onStorage {α : Type} (work : Instant Storage α) : Instant Pool α :=
  storagePart.instant work

/- Tables. -/

def checkFree (p : Pool) (table : TableId) : Except Misuse Unit :=
  if p.tables.contains table then .error (.tableTaken table) else .ok ()

def findTable (p : Pool) (table : TableId) : Except Misuse HeapFile :=
  match p.tables.get? table with
  | some file => .ok file
  | none => .error (.unknownTable table)

def register (file : HeapFile) : Instant Pool Unit := do
  demand Pool ((← get).checkFree file.table)
  modify fun p => {p with tables := p.tables.insert file.table file}

def table (id : TableId) : Instant Pool HeapFile := do demand Pool ((← get).findTable id)

/- Frames. -/

def isResident (p : Pool) (page : PageId) : Bool := p.resident.contains page

/- What a frame holds now, in the cache or outside. -/
def latest (p : Pool) (f : Frame) : Page :=
  let outside := ((p.gone.find? (·.id = f.id)).getD f).page
  match p.resident.get? f.page.id with
  | some g => if g.id = f.id then g.page else outside
  | none => outside

def keep (p : Pool) (f : Frame) : Pool := {p with gone := f :: p.gone.filter (·.id ≠ f.id)}

def update (p : Pool) (f : Frame) : Pool :=
  match p.resident.get? f.page.id with
  | some g =>
    if g.id = f.id then {p with resident := p.resident.insert f.page.id f} else p.keep f
  | none => p.keep f

def drop (p : Pool) (page : PageId) : Pool :=
  match p.resident.get? page with
  | some f => {p with resident := p.resident.erase page, gone := f :: p.gone}
  | none => p

def bring (p : Pool) (f : Frame) : Pool :=
  {p with resident := p.resident.insert f.page.id f, gone := p.gone.filter (·.id ≠ f.id)}

/- Another copy of the page has to give way. -/
def place (p : Pool) (f : Frame) : Pool :=
  match p.resident.get? f.page.id with
  | some g => if g.id = f.id then p.update f else (p.drop f.page.id).bring f
  | none => p.bring f

def newFrame (page : Page) : Instant Pool Frame :=
  modifyGet fun p => (⟨p.nextFrame, page⟩, {p with nextFrame := p.nextFrame + 1})

def write (f : Frame) : Instant Pool Unit := modify (·.update f)

def draw : Instant Pool Nat :=
  modifyGet fun p => (p.draws.headD 0, {p with draws := p.draws.tail})

/- Writing back. -/

def flushPage (page : PageId) : Instant Pool Unit := do
  match (← get).resident.get? page with
  | none => pure ()
  | some f =>
    if f.page.isDirty then do
      let file ← table f.page.id.table
      onStorage (file.writePage f.page)
      write {f with page := f.page.markClean}
    else pure ()

/- The pages in the order of that number. Number 0 leaves them in their places. -/
def arranged : Nat → List PageId → List PageId
  | _, [] => []
  | order, first :: rest =>
    (arranged (order / (rest.length + 1)) rest).insertIdx (order % (rest.length + 1)) first

/- All changed pages, committed or not, in any order. -/
def flushAll : Instant Pool Unit := do
  let order ← draw
  (arranged order (← get).resident.keys).forM flushPage

/- The changed pages that a transaction owns, in the order of its locks. -/
def flushOwned (txn : TxnId) : Instant Pool Unit := do
  ((← get).locks.ownedBy txn).forM flushPage

/- Making room. -/

/-- A frame may leave if it is unchanged, nobody owns its page, and nobody writes to it. -/
def isVictim (p : Pool) (page : PageId) (f : Frame) : Bool :=
  !p.locks.isOwned page && !p.latched.contains f.id && !f.page.isDirty

def victims (p : Pool) : List PageId :=
  (p.resident.entries.filter (fun e => p.isVictim e.1 e.2)).map Prod.fst

def evict : Instant Pool Unit := do
  match (← get).victims with
  | [] => throw (.exhausted (← get).capacity)
  | first :: rest =>
    let page := (first :: rest).getD ((← draw) % (rest.length + 1)) first
    flushPage page
    modify (·.drop page)

def makeRoom : Instant Pool Unit := do
  let p ← get
  if p.capacity ≤ p.resident.size then evict else pure ()

def makeRoomFor (page : PageId) : Instant Pool Unit := do
  if (← get).isResident page then pure () else makeRoom

/- Getting pages. -/

def load (page : PageId) : Instant Pool Frame := do
  makeRoom
  let file ← table page.table
  let frame ← newFrame (← onStorage (file.readPage page))
  modify fun p => {p with resident := p.resident.insert page frame}
  pure frame

def fetch (page : PageId) : Instant Pool Frame := do
  match (← get).resident.get? page with
  | some frame => pure frame
  | none => load page

/-- A refused request waits until others have acted. If it is refused again then, the
wait has run out. -/
def lock (wanted : Lock) : Activity Pool Unit := fun p =>
  match p.locks.acquire wanted p.patience.longest [] with
  | (.granted, locks) => .ended (.ok () {p with locks})
  | (_, locks) => .waiting {p with locks} fun p =>
    match p.locks.acquire wanted p.patience.longest [LockTable.expired p.patience.longest] with
    | (.granted, locks) => .ended (.ok () {p with locks})
    | (_, locks) => .ended (.error (.aborted wanted.txn wanted.page) {p with locks})

/- The lock stays if the page cannot be had. -/
def getPage (txn : TxnId) (page : PageId) (access : Access) : Activity Pool Frame := do
  lock ⟨txn, page, access⟩
  fetch page

def release (txn : TxnId) (page : PageId) : Instant Pool Unit :=
  modify fun p => {p with locks := p.locks.release txn page}

def holds (txn : TxnId) (page : PageId) : Instant Pool Bool := do
  pure ((← get).locks.holds txn page)

/- Gives back a lock that was not held before. -/
def releaseProbe (held : Bool) (txn : TxnId) (page : PageId) : Instant Pool Unit :=
  if held then pure () else release txn page

def discard (page : PageId) : Instant Pool Unit := modify (·.drop page)

/- Ending a transaction. -/

def releaseAll (txn : TxnId) : Instant Pool Unit :=
  modify fun p => {p with locks := (p.locks.releaseAll txn).2}

/- If a page cannot be written the locks stay. -/
def commit (txn : TxnId) : Instant Pool Unit := do
  flushOwned txn
  releaseAll txn

def abort (txn : TxnId) : Instant Pool Unit := do
  modify fun p => (p.locks.ownedBy txn).foldl Pool.drop p
  releaseAll txn

end Pool
end PagedHeap
