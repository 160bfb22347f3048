import PagedHeap.Cursor
import PagedHeap.Transaction.Ledger

/-! An engine: a pool with tables, and the transactions that work on them. Work on
records does not ask how its transaction stands; ending a transaction does. -/
namespace PagedHeap

structure Engine where
  config : Config
  pool : Pool
  ledger : Ledger
  nextTable : TableId
  deriving DecidableEq, Repr

inductive OpenError where
  | file (path : String) (cause : Error)
  | registration (cause : Error)
  deriving DecidableEq, Repr

namespace OpenError

def cause : OpenError → Error
  | .file _ cause => cause
  | .registration cause => cause

def text : OpenError → String
  | .file path cause => s!"failed to open table file {path}: {cause.fullText}"
  | .registration cause => cause.fullText

end OpenError

structure Stats where
  resident : Nat
  capacity : Nat
  active : List TxnId
  deriving DecidableEq, Repr

namespace Engine

def ofConfig (config : Config) (directory : Directory) : Engine :=
  ⟨config, .ofConfig config ⟨directory, []⟩, .empty, 1⟩

def poolPart : Part Engine Pool := ⟨Engine.pool, fun e pool => {e with pool},
  fun _ _ => rfl, fun _ _ _ => rfl⟩

def onPool {α : Type} (work : Instant Pool α) : Instant Engine α := poolPart.instant work

/-- Opens a table file under the next table number, which is used up by success only. -/
def openTable (name : String) (width : Nat) : EStateM OpenError Engine TableId := do
  let e ← get
  let table := e.nextTable
  let work := Pool.onStorage (HeapFile.onFile name table width e.config.pageSize)
  let path := e.pool.storage.directory.path name
  let file ← EStateM.adaptExcept (.file path) (onPool work)
  EStateM.adaptExcept .registration (onPool (Pool.register file))
  modify fun e => {e with nextTable := table + 1}
  pure table

def table (id : TableId) : Instant Engine HeapFile := onPool (Pool.table id)

/- Transactions. -/

def begin : Instant Engine TxnId :=
  modifyGet fun e => (e.ledger.begin.1, {e with ledger := e.ledger.begin.2})

/-- Ends a running transaction by the given work, and notes how it ended if that works. -/
def finish (txn : TxnId) (work : Instant Pool Unit) (status : Status) : Instant Engine Unit := do
  demand Engine ((← get).ledger.checkRunning txn)
  onPool work
  modify fun e => {e with ledger := e.ledger.mark txn status}

/- A transaction whose changes could not all be written goes on running. -/
def commit (txn : TxnId) : Instant Engine Unit := finish txn (Pool.commit txn) .committed

def abort (txn : TxnId) : Instant Engine Unit := finish txn (Pool.abort txn) .aborted

/- Records. -/

def insert (txn : TxnId) (table : TableId) (values : List Int32) : Activity Engine Rid :=
  (Pool.insert txn table (Record.ofValues values).data).within poolPart

def delete (txn : TxnId) (rid : Rid) : Activity Engine Unit :=
  (Pool.delete txn (some rid)).within poolPart

def scan (txn : Option TxnId) (id : TableId) : Activity Engine (List Record) := do
  let file ← table id
  (file.scan txn).within poolPart

/- The whole engine. -/

def flush : Instant Engine Unit := onPool Pool.flushAll

def stats (e : Engine) : Stats := ⟨e.pool.resident.size, e.pool.capacity, e.ledger.active⟩

/- Aborts what still runs, then writes what is still changed. -/
def shutdown : Instant Engine Unit := do
  (← get).ledger.active.forM abort
  flush

end Engine
end PagedHeap
