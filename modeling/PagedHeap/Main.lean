import PagedHeap.Options
import PagedHeap.Shell

/-! The interactive shell over one table file. The file is read when the table is
opened, and written back after each line that changed it. -/
namespace PagedHeap

def bytesOf (content : ByteArray) : Bytes := content.toList

def folderOf (path : String) : String × String :=
  let name := (path.toList.reverse.takeWhile (· ≠ '/')).reverse
  (String.ofList (path.toList.take (path.length - name.length)), String.ofList name)

def printError (text : String) : IO Unit := do (← IO.getStderr).putStrLn s!"Error: {text}"

def load (path : String) : IO (Option Bytes) := do
  try return some (bytesOf (← IO.FS.readBinFile path))
  catch
    | .noFileOrDirectory .. => return none
    | e => throw e

def save (path name : String) (before after : Directory) : IO Unit := do
  match after.files.get? name with
  | some content =>
    if before.files.get? name ≠ some content then
      IO.FS.writeBinFile path ⟨content.bytes.toArray⟩
  | none => pure ()

structure Console where
  path : String
  name : String

def directoryOf (s : Shell) : Directory := s.engine.pool.storage.directory

def promptOf (s : Shell) : String :=
  match s.current with
  | some txn => s!"heapdb ({txn.text})"
  | none => "heapdb"

def keeping {ε α : Type} (c : Console) (s : Shell) (work : EStateM ε Shell α) :
    IO (Except ε α × Shell) := do
  let (result, after) := match work s with
    | .ok a after => (.ok a, after)
    | .error e after => (.error e, after)
  save c.path c.name (directoryOf s) (directoryOf after)
  return (result, after)

partial def converse (c : Console) (input output : IO.FS.Stream) (s : Shell) : IO Shell := do
  output.putStr s!"{promptOf s}: "
  output.flush
  let line ← input.getLine
  if line.isEmpty then return s
  match ← keeping c s (Shell.execute line) with
  | (.ok (.text text), s) =>
    output.putStrLn text
    converse c input output s
  | (.ok .exit, s) => return s
  | (.error e, s) =>
    output.putStrLn s!"ERROR: {e.text}"
    converse c input output s

def openShell (o : Options) (c : Console) (d : Directory) : IO (Option Shell) := do
  let engine := Engine.ofConfig o.config d
  match Engine.openTable c.name (Record.widthForFields o.fields) engine with
  | .ok table engine =>
    save c.path c.name d engine.pool.storage.directory
    return some (Shell.ofEngine engine table o.fields)
  | .error e engine =>
    save c.path c.name d engine.pool.storage.directory
    printError e.text
    return none

def runShell (o : Options) : IO UInt32 := do
  let (folder, name) := folderOf o.dataFile
  let c : Console := ⟨o.dataFile, name⟩
  let start := Directory.empty folder
  let directory := match ← load o.dataFile with
    | some content => start.put name (.ofBytes content)
    | none => start
  match ← openShell o c directory with
  | none => return 1
  | some shell =>
    let output ← IO.getStdout
    output.putStrLn "Welcome to heapdb!"
    output.putStrLn "Type \"help\" for commands, \"exit\" or \"quit\" to exit."
    let shell ← converse c (← IO.getStdin) output shell
    match ← keeping c shell (Shell.onEngine Engine.shutdown) with
    | (.ok _, _) =>
      output.putStrLn "Bye!"
      return 0
    | (.error e, _) =>
      printError e.text
      return 1

end PagedHeap

def main (args : List String) : IO UInt32 := do
  match PagedHeap.Options.read args with
  | .ok options =>
    try PagedHeap.runShell options
    catch e =>
      PagedHeap.printError (toString e)
      return 1
  | .error e =>
    (← IO.getStderr).putStrLn s!"error: {e.text}"
    return 2
