import PagedHeap.Error
import PagedHeap.KeyMap
import PagedHeap.Storage.Content

/-! One directory of files, without directories below it. A file above the directory
is known by its name behind one ../ for each step up. -/
namespace PagedHeap

structure Directory where
  /-- What stands in front of a name where it is shown. -/
  root : String
  files : KeyMap String Content
  /-- The last place that can be gone to in a file that ends before it. -/
  reach : UInt64
  deriving DecidableEq, Repr

namespace Directory

/- Places in files are signed words of 64 bits. -/
def empty (root : String) : Directory := ⟨root, .empty, 0x7FFFFFFFFFFFFFFF⟩

def path (d : Directory) (name : String) : String := d.root ++ name

/- Lengths of names are counted in bytes. -/
def longestPath : Nat := 4095

def longestPart : Nat := 255

/-- The file that the parts of a name lead to. Whatever else than a directory stands on
the way ends it, whether it is a file or missing. A slash at the end asks for a
directory. -/
def follow (d : Directory) (place : String) : List String → Except IoError String
  | [] => .error .isADirectory
  | part :: rest =>
    if part.isEmpty || part = "." then d.follow place rest
    else if part = ".." then d.follow (place ++ "../") rest
    else if !rest.isEmpty && rest.all String.isEmpty then .error .isADirectory
    else if longestPart < part.utf8ByteSize then .error .nameTooLong
    else if rest.isEmpty then .ok (place ++ part)
    else .error (if d.files.contains (place ++ part) then .notADirectory else .notFound)

def resolve (d : Directory) (name : String) : Except IoError String :=
  if name.contains (Char.ofNat 0) then .error .nulInPath
  else if longestPath < (d.path name).utf8ByteSize then .error .nameTooLong
  else d.follow "" (name.splitOn "/")

def content (d : Directory) (file : String) : Content := d.files.getD file []

def bytes (d : Directory) (file : String) : Bytes := (d.content file).bytes

def reaches (d : Directory) (file : String) (offset : Nat) : Bool :=
  offset ≤ (d.content file).size || offset ≤ d.reach.toNat

def put (d : Directory) (file : String) (content : Content) : Directory :=
  {d with files := d.files.insert file content}

def ensure (d : Directory) (file : String) : Directory := d.put file (d.content file)

theorem reachesInside {d : Directory} {file : String} {offset : Nat}
    (inside : offset ≤ (d.bytes file).length) : d.reaches file offset = true := by
  rw [bytes, Content.bytesLength] at inside
  simp [reaches, inside]

theorem contentPut (d : Directory) (file other : String) (content : Content) :
    (d.put file content).content other =
      if file = other then content else d.content other := by
  simp only [Directory.content, put, KeyMap.getD, KeyMap.getInsert]
  split <;> rfl

theorem contentEnsure (d : Directory) (file other : String) :
    (d.ensure file).content other = d.content other := by
  rw [ensure, contentPut]
  split
  · rename_i same; rw [same]
  · rfl

theorem bytesPut (d : Directory) (file other : String) (content : Content) :
    (d.put file content).bytes other = if file = other then content.bytes else d.bytes other := by
  rw [bytes, contentPut]
  split <;> rfl

theorem bytesEnsure (d : Directory) (file other : String) :
    (d.ensure file).bytes other = d.bytes other :=
  congrArg Content.bytes (d.contentEnsure file other)

end Directory
end PagedHeap
