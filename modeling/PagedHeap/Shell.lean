import PagedHeap.Engine
import PagedHeap.Text.Command
import PagedHeap.Text.Grid

/-! Commands on one table of an engine. A command on records works in the open
transaction, or else in one of its own that commits when the command has worked. A
command that fails takes its own transaction back; one that waited too long for a
lock takes the open one back as well. A transaction that is told to commit or abort is
no longer the open one, however that goes. -/
namespace PagedHeap

inductive ShellError where
  | engine (cause : Error)
  | command (cause : CommandError)
  | stillOpen (txn : TxnId)
  | noneOpen
  deriving DecidableEq, Repr

def ShellError.text : ShellError → String
  | .engine cause => cause.fullText
  | .command cause => cause.text
  | .stillOpen txn => s!"{txn.text} is still open"
  | .noneOpen => "no transaction is open"

inductive Reply where
  | text (output : String)
  | exit
  deriving DecidableEq, Repr

structure Shell where
  engine : Engine
  table : TableId
  fields : Nat
  current : Option TxnId
  deriving DecidableEq, Repr

namespace Shell

abbrev Work := EStateM ShellError Shell

def ofEngine (engine : Engine) (table : TableId) (fields : Nat) : Shell :=
  ⟨engine, table, fields, none⟩

def help : String := "begin                  start a transaction
insert <int>...        insert a record
delete <page> <slot>   delete the record at a slot
scan                   list every record
commit | abort         end the open transaction
flush                  write every dirty page
stats                  buffer pool and transaction counts
exit | quit            leave the shell

insert, delete and scan outside a transaction run in their own."

def enginePart : Part Shell Engine := ⟨Shell.engine, fun s engine => {s with engine},
  fun _ _ => rfl, fun _ _ _ => rfl⟩

def onEngine {α : Type} (work : Instant Engine α) : Work α :=
  EStateM.adaptExcept .engine (enginePart.instant work)

def setCurrent (current : Option TxnId) : Work Unit := modify ({· with current})

/- Which transaction a command works in. -/

def takeCurrent : Work TxnId := do
  match (← get).current with
  | none => throw .noneOpen
  | some txn =>
    setCurrent none
    pure txn

def giveUp {α : Type} (txn : TxnId) (cause : Error) : Work α := do
  onEngine (Engine.abort txn)
  setCurrent none
  throw (.engine cause)

def inOpen {α : Type} (txn : TxnId) (work : Activity Engine α) : Work α := do
  match ← onEngine work.attempt.settled with
  | .ok a => pure a
  | .error cause => if cause.isAborted then giveUp txn cause else throw (.engine cause)

def inOwn {α : Type} (txn : TxnId) (work : Activity Engine α) : Work α := do
  match ← onEngine work.attempt.settled with
  | .ok a =>
    onEngine (Engine.commit txn)
    pure a
  | .error cause => giveUp txn cause

def inTransaction {α : Type} (work : TxnId → Activity Engine α) : Work α := do
  match (← get).current with
  | some txn => inOpen txn (work txn)
  | none =>
    let txn ← onEngine Engine.begin
    inOwn txn (work txn)

/- What a command answers. -/

def gridRow (r : Record) : List String :=
  let place := match r.rid with
    | some rid => [toString rid.page.number.toNat, toString rid.slot.toNat]
    | none => ["", ""]
  place ++ r.values.map (fun value => toString value.toInt)

def grid (fields : Nat) (records : List Record) : Grid :=
  ⟨["page", "slot"] ++ (List.range fields).map (fun i => s!"f{i}"), records.map gridRow⟩

def statsText (s : Stats) : String :=
  s!"resident pages: {s.resident}/{s.capacity}\nactive transactions: {s.active.length}"

def begin : Work Reply := do
  match (← get).current with
  | some txn => throw (.stillOpen txn)
  | none =>
    let txn ← onEngine Engine.begin
    setCurrent (some txn)
    pure (.text s!"BEGIN {txn.text}")

def commit : Work Reply := do
  let txn ← takeCurrent
  onEngine (Engine.commit txn)
  pure (.text s!"COMMIT {txn.text}")

def abort : Work Reply := do
  let txn ← takeCurrent
  onEngine (Engine.abort txn)
  pure (.text s!"ABORT {txn.text}")

def insert (values : List Int32) : Work Reply := do
  let table := (← get).table
  let rid ← inTransaction (Engine.insert · table values)
  pure (.text s!"INSERT page {rid.page.number.toNat} slot {rid.slot.toNat}")

def delete (page slot : UInt32) : Work Reply := do
  let table := (← get).table
  inTransaction (Engine.delete · ⟨⟨table, page⟩, slot⟩)
  pure (.text s!"DELETE page {page.toNat} slot {slot.toNat}")

def scan : Work Reply := do
  let s ← get
  let records ← inTransaction (fun txn => Engine.scan (some txn) s.table)
  pure (.text (grid s.fields records).text)

def flush : Work Reply := do
  onEngine Engine.flush
  pure (.text "FLUSH")

def stats : Work Reply := do pure (.text (statsText (← get).engine.stats))

def perform : Command → Work Reply
  | .begin => begin
  | .commit => commit
  | .abort => abort
  | .insert values => insert values
  | .delete page slot => delete page slot
  | .scan => scan
  | .flush => flush
  | .stats => stats
  | .help => pure (.text help)
  | .exit => pure .exit

def execute (line : String) : Work Reply := do
  match Command.read (← get).fields line with
  | .ok (some command) => perform command
  | .ok none => pure (.text "")
  | .error cause => throw (.command cause)

end Shell
end PagedHeap
