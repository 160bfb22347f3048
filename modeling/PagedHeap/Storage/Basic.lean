import PagedHeap.Activity
import PagedHeap.Storage.Directory
import PagedHeap.Storage.Fault

/-! Volumes, which keep the pages of one table each: in memory, or side by side in a
file of the directory. Pages are numbered from 0 without gaps, and a volume grows by
one blank page at its end. A call is logged, then looked up in the verdicts and the
script, and only then looked at itself, the length of the buffer first. Page counts are words of 32
bits. -/
namespace PagedHeap

abbrev VolumeId := Nat

inductive Medium where
  | memory (pages : List Bytes)
  | file (name : String)
  deriving DecidableEq, Repr

structure Volume where
  pageSize : Nat
  medium : Medium
  verdicts : List Verdict
  script : List Fault
  /-- The calls so far, the latest one first. -/
  calls : List Call
  deriving DecidableEq, Repr

instance : Inhabited Volume := ⟨⟨0, .memory [], [], [], []⟩⟩

structure Storage where
  directory : Directory
  volumes : List Volume
  deriving DecidableEq, Repr

namespace Storage

def empty (root : String) : Storage := ⟨.empty root, []⟩

def volume (s : Storage) (v : VolumeId) : Volume := s.volumes.getD v default

def update (s : Storage) (v : VolumeId) (change : Volume → Volume) : Storage :=
  {s with volumes := s.volumes.modify v change}

def pageSize (s : Storage) (v : VolumeId) : Nat := (s.volume v).pageSize

def checkLength (s : Storage) (v : VolumeId) (length : Nat) : Except Misuse Unit :=
  if length = s.pageSize v then .ok () else .error (.bufferLength length (s.pageSize v))

/- What the volumes hold, with the script left out of account. -/

def pageCount (s : Storage) (v : VolumeId) : UInt32 :=
  match (s.volume v).medium with
  | .memory pages => .ofNat pages.length
  | .file name => .ofNat ((s.directory.content name).size / s.pageSize v)

def image (s : Storage) (v : VolumeId) (page : UInt32) : Except IoError Bytes :=
  match (s.volume v).medium with
  | .memory pages =>
    match pages[page.toNat]? with
    | some image => .ok image
    | none => .error (.unallocated page)
  | .file name =>
    let size := s.pageSize v
    if s.directory.reaches name (page.toNat * size) then
      let image := (s.directory.content name).slice (page.toNat * size) size
      if image.length = size then .ok image else .error .shortRead
    else .error .farOffset

def store (s : Storage) (v : VolumeId) (page : UInt32) (image : Bytes) :
    Except IoError Storage :=
  match (s.volume v).medium with
  | .memory pages =>
    if page.toNat < pages.length then
      .ok (s.update v ({· with medium := .memory (pages.set page.toNat image)}))
    else .error (.unallocated page)
  | .file name =>
    let offset := page.toNat * s.pageSize v
    if s.directory.reaches name offset then
      let content := (s.directory.content name).splice offset image
      .ok {s with directory := s.directory.put name content}
    else .error .farOffset

def extend (s : Storage) (v : VolumeId) (image : Bytes) : UInt32 × Storage :=
  let page := s.pageCount v
  match (s.volume v).medium with
  | .memory pages => (page, s.update v ({· with medium := .memory (pages ++ [image])}))
  | .file name =>
    let content := (s.directory.content name).splice (page.toNat * s.pageSize v) image
    (page, {s with directory := s.directory.put name content})

/- The calls. -/

def log (v : VolumeId) (call : Call) : Instant Storage Unit :=
  modify fun s => s.update v fun volume => {volume with calls := call :: volume.calls}

def met (v : VolumeId) (point : FaultPoint) (page : Option UInt32) :
    Instant Storage (Option IoError) := fun s =>
  match Verdict.take point (s.volume v).verdicts with
  | some (cause, verdicts) => .ok cause (s.update v ({· with verdicts}))
  | none =>
    match Fault.take point page (s.volume v).script with
    | none => .ok none s
    | some (cause, script) => .ok (some cause) (s.update v ({· with script}))

def pass (v : VolumeId) (point : FaultPoint) (page : Option UInt32) :
    Instant Storage Unit := do
  match ← met v point page with
  | none => pure ()
  | some cause => throw (.storage cause)

def read (v : VolumeId) (page : UInt32) (length : Nat) : Instant Storage Bytes := do
  log v (.read page)
  pass v .read (some page)
  demand Storage ((← get).checkLength v length)
  served Storage ((← get).image v page)

def write (v : VolumeId) (page : UInt32) (image : Bytes) : Instant Storage Unit := do
  log v (.write page)
  pass v .write (some page)
  demand Storage ((← get).checkLength v image.length)
  set (← served Storage ((← get).store v page image))

def count (v : VolumeId) : Instant Storage UInt32 := do
  pass v .count none
  pure ((← get).pageCount v)

def allocate (v : VolumeId) : Instant Storage UInt32 := do
  log v .allocate
  pass v .allocate none
  let full := (← met v .fill none).isSome
  let fresh := List.replicate ((← get).pageSize v) (if full then 255 else 0)
  modifyGet (·.extend v fresh)

/- Setting volumes up. -/

def add (volume : Volume) : Instant Storage VolumeId :=
  modifyGet fun s => (s.volumes.length, {s with volumes := s.volumes ++ [volume]})

/- A page is made up only where one is asked for. -/
def blankPages (pageSize : Nat) : Nat → List Bytes
  | 0 => []
  | pages + 1 => List.replicate (pages + 1) (List.replicate pageSize 0)

def addMemory (pageSize pages : Nat) : Instant Storage VolumeId :=
  add ⟨pageSize, .memory (blankPages pageSize pages), [], [], []⟩

def checkSize (pageSize : Nat) : Except Misuse Unit :=
  if pageSize = 0 then .error .zeroPageSize else .ok ()

def checkWhole (d : Directory) (name file : String) (pageSize : Nat) : Except Misuse Unit :=
  let length := (d.content file).size
  if length % pageSize = 0 then .ok () else .error (.tornFile (d.path name) length pageSize)

/- A missing file is made before its length is looked at, and a file that is not a whole
number of pages stays where it is. -/
def openFile (name : String) (pageSize : Nat) : Instant Storage VolumeId := do
  demand Storage (checkSize pageSize)
  let file ← served Storage ((← get).directory.resolve name)
  modify fun s => {s with directory := s.directory.ensure file}
  demand Storage (checkWhole (← get).directory name file pageSize)
  add ⟨pageSize, .file file, [], [], []⟩

end Storage
end PagedHeap
