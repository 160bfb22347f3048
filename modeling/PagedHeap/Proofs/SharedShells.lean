import PagedHeap.Proofs.KeyedPools
import PagedHeap.Proofs.Lifetimes
import PagedHeap.Proofs.ShellLaws

/-! A shell on an engine that others use at will. Between the lines they run transactions, also
the one the shell has open, open tables, call the pool and its tables directly, and change the
volumes. The pool stays filed all the while. -/
namespace PagedHeap

variable {α β : Type}

namespace Engine

/- What others may do with an engine: all it is made for, and anything with its pool. -/
inductive Use where
  | job (asked : Job)
  | pool (asked : Pool.PoolUse)

def Use.work : Use → Activity Engine Unit
  | .job asked => do let _ ← asked.work
  | .pool asked => asked.work.within poolPart

def unguarded : Service Engine Use Unit := ⟨fun _ => none, Use.work, fun _ _ => True⟩

def KeepsFiled (e e' : Engine) : Prop := Pool.KeepsFiled e.pool e'.pool

instance : Std.Refl KeepsFiled := ⟨fun _ => id⟩

instance : Trans KeepsFiled KeepsFiled KeepsFiled := ⟨fun first second => second ∘ first⟩

theorem onPoolFiled {work : Instant Pool α} (filed : Steps Pool.KeepsFiled work) :
    Steps KeepsFiled (onPool work) := filed.inPart fun _ _ kept => kept

theorem withinFiled {work : Activity Pool α} (filed : Upholds Pool.KeepsFiled work) :
    Upholds KeepsFiled (work.within poolPart) := filed.within fun _ _ kept => kept

theorem insertFiled (txn : TxnId) (table : TableId) (values : List Int32) :
    Upholds KeepsFiled (insert txn table values) :=
  withinFiled ((Pool.filedPieces (some txn)).insert table _)

theorem deleteFiled (txn : TxnId) (rid : Rid) : Upholds KeepsFiled (delete txn rid) :=
  withinFiled ((Pool.filedPieces (some txn)).delete (some rid))

theorem scanFiled (who : Option TxnId) (table : TableId) : Upholds KeepsFiled (scan who table) :=
  .bind (.lift (onPoolFiled (Pool.tableSteps table))) fun file =>
    withinFiled ((Pool.filedPieces who).scan file)

theorem finishFiled (txn : TxnId) {work : Instant Pool Unit} (status : Status)
    (filed : Steps Pool.KeepsFiled work) : Steps KeepsFiled (finish txn work status) :=
  Steps.gets.bind fun _ => (Steps.asks _).bind fun _ => (onPoolFiled filed).bind fun _ _ => id

theorem commitFiled (txn : TxnId) : Steps KeepsFiled (commit txn) :=
  finishFiled txn .committed (Pool.filedPieces (some txn)).commit

theorem abortFiled (txn : TxnId) : Steps KeepsFiled (abort txn) :=
  finishFiled txn .aborted (Pool.filedPieces (some txn)).abort

theorem flushFiled : Steps KeepsFiled flush := onPoolFiled (Pool.filedPieces none).flushAll

theorem beginFiled : Steps KeepsFiled begin := fun _ => id

theorem openingFiled (name : String) (width : Nat) : Steps KeepsFiled (opening name width) := by
  rw [openingPlain]
  have counts (table : TableId) : Steps KeepsFiled (modify fun e => {e with nextTable := table}) :=
    fun _ => id
  exact Steps.gets.bind fun e => (onPoolFiled (Pool.storageFiled _)).bind fun file =>
    (onPoolFiled (Pool.registerFiled file)).bind fun _ =>
      (counts _).bind fun _ => .returns _

theorem Job.filed (job : Job) : Upholds KeepsFiled job.work := by
  cases job with
  | call call => exact (withinFiled (Pool.callFiled call)).bind fun _ => .returns _
  | operation o =>
    refine Upholds.bind ?_ fun _ => .returns _
    cases o with
    | openTable name width => exact .bind (.lift (openingFiled name width)) fun _ => .returns _
    | flush => exact .bind (.lift flushFiled) fun _ => .returns _
    | request r =>
      refine Upholds.bind ?_ fun _ => .returns _
      cases r with
      | begin => exact .bind (.lift beginFiled) fun _ => .returns _
      | insert txn table values => exact (insertFiled txn table values).bind fun _ => .returns _
      | delete txn rid => exact (deleteFiled txn rid).bind fun _ => .returns _
      | scan who table => exact (scanFiled who table).bind fun _ => .returns _
      | commit txn => exact .bind (.lift (commitFiled txn)) fun _ => .returns _
      | abort txn => exact .bind (.lift (abortFiled txn)) fun _ => .returns _

theorem Use.filed (use : Use) : Upholds KeepsFiled use.work := by
  cases use with
  | job asked => exact asked.filed.bind fun _ => .returns _
  | pool asked => exact withinFiled asked.filed

theorem lawOfFiled : unguarded.Law (fun _ e => e.pool.Filed) (fun _ => KeepsFiled)
    (fun _ _ _ => True) (fun _ e _ e' => KeepsFiled e e') :=
  .kept (fun filed kept => kept filed) fun use e _ _ => use.filed e

end Engine

namespace Shell

open Engine (Use unguarded)

variable {s t : Shell} {txn : TxnId}

/- The lines of the shell itself. -/

def Files (work : Work α) : Prop :=
  ∀ s, Yields (fun _ t => s.engine.KeepsFiled t.engine) (fun _ t => s.engine.KeepsFiled t.engine)
    (work s)

namespace Files

theorem returns (a : α) : Files (pure a) := fun _ => id

theorem throws (cause : ShellError) : Files (throw cause : Work α) := fun _ => id

theorem gets : Files get := fun _ => id

theorem opens (current : Option TxnId) : Files (setCurrent current) := fun _ => id

theorem bind {work : Work α} {next : α → Work β} (first : Files work)
    (rest : ∀ a, Files (next a)) : Files (work >>= next) := fun s =>
  Yields.andThen (first s) (fun a t early => (rest a t).mono (fun _ _ late => late ∘ early)
    (fun _ _ late => late ∘ early)) (fun _ _ early => early)

theorem engine {work : Instant Engine α} (filed : Steps Engine.KeepsFiled work) :
    Files (onEngine work) := fun s =>
  .ofEngine ((filed s.engine).mono (fun _ _ kept => kept) (fun _ kept _ => kept))

theorem attempt {work : Activity Engine α} (filed : Upholds Engine.KeepsFiled work) :
    Files (onEngine work.attempt.settled) := engine fun e =>
  (filed.settled e).attempt.mono (fun answer _ kept => by cases answer <;> exact kept)
    (fun _ none => none.elim)

theorem giveUp (txn : TxnId) (cause : Error) : Files (giveUp txn cause : Work α) :=
  (engine (Engine.abortFiled txn)).bind fun _ => (opens none).bind fun _ => throws _

theorem inOpen {work : Activity Engine α} (filed : Upholds Engine.KeepsFiled work) (txn : TxnId) :
    Files (inOpen txn work) :=
  (attempt filed).bind fun answer => by
    cases answer with
    | ok a => exact returns a
    | error cause =>
      change Files (if cause.isAborted then Shell.giveUp txn cause else throw (.engine cause))
      split
      · exact giveUp txn cause
      · exact throws _

theorem inOwn {work : Activity Engine α} (filed : Upholds Engine.KeepsFiled work) (txn : TxnId) :
    Files (inOwn txn work) :=
  (attempt filed).bind fun answer => by
    cases answer with
    | ok a => exact (engine (Engine.commitFiled txn)).bind fun _ => returns a
    | error cause => exact giveUp txn cause

theorem inTransaction {work : TxnId → Activity Engine α}
    (filed : ∀ txn, Upholds Engine.KeepsFiled (work txn)) : Files (inTransaction work) :=
  gets.bind fun s => by
    split
    · exact inOpen (filed _) _
    · exact (engine Engine.beginFiled).bind fun txn => inOwn (filed txn) txn

theorem takeCurrent : Files takeCurrent :=
  gets.bind fun s => by
    split
    · exact throws _
    · exact (opens none).bind fun _ => returns _

theorem perform (command : Command) : Files (perform command) := by
  cases command with
  | begin =>
    refine gets.bind fun s => ?_
    split
    · exact throws _
    · exact (engine Engine.beginFiled).bind fun txn => (opens _).bind fun _ => returns _
  | commit =>
    exact takeCurrent.bind fun txn => (engine (Engine.commitFiled txn)).bind fun _ => returns _
  | abort =>
    exact takeCurrent.bind fun txn => (engine (Engine.abortFiled txn)).bind fun _ => returns _
  | insert values =>
    exact gets.bind fun s => (inTransaction fun txn =>
      Engine.insertFiled txn s.table values).bind fun _ => returns _
  | delete page slot =>
    exact gets.bind fun s => (inTransaction fun txn =>
      Engine.deleteFiled txn ⟨⟨s.table, page⟩, slot⟩).bind fun _ => returns _
  | scan =>
    exact gets.bind fun s => (inTransaction fun txn =>
      Engine.scanFiled (some txn) s.table).bind fun _ => returns _
  | flush => exact (engine Engine.flushFiled).bind fun _ => returns _
  | stats => exact gets.bind fun _ => returns _
  | help | exit => exact returns _

theorem execute (line : String) : Files (execute line) :=
  gets.bind fun s => by
    split
    · exact perform _
    · exact returns _
    · exact throws _

theorem after (line : String) (s : Shell) : s.engine.KeepsFiled (s.after line).engine := by
  have kept := execute line s
  unfold Shell.after
  cases done : Shell.execute line s <;> rw [done] at kept <;> exact kept

end Files

/- Lines, and what others do between them. -/

/- All states a shell comes to, with those who wait on its engine, if it is opened on an engine
whose pool is new. -/
inductive Shared : Shell → List (Waiting Engine Use Unit) → Prop
  | new {s : Shell} {config : Config} {storage : Storage} {draws : List Nat}
      (fresh : s.engine.pool = {Pool.ofConfig config storage with draws}) : Shared s []
  | line {s : Shell} {waiting : List (Waiting Engine Use Unit)} (before : Shared s waiting)
      (line : String) : Shared (s.after line) waiting
  | others {s : Shell} {h h' : History Use Unit} {waiting : List (Waiting Engine Use Unit)}
      {t : Traffic Engine Use Unit} (before : Shared s waiting)
      (step : unguarded.Step (h, ⟨s.engine, waiting⟩) (h', t)) :
      Shared {s with engine := t.state} t.waiting

variable {waiting : List (Waiting Engine Use Unit)}

theorem Shared.orderly (shared : Shared s waiting) (h : History Use Unit) :
    unguarded.Orderly (fun _ e => e.pool.Filed) (fun _ => Engine.KeepsFiled) (fun _ _ _ => True)
      (fun _ e _ e' => Engine.KeepsFiled e e') h ⟨s.engine, waiting⟩ := by
  induction shared generalizing h with
  | @new s _ storage draws fresh =>
    have filed : s.engine.pool.Filed := fresh ▸ Pool.newFiled _ storage draws
    exact ⟨filed, fun _ there => (List.not_mem_nil there).elim, .nil⟩
  | @line s _ _ line ih =>
    obtain ⟨filed, ready, apart⟩ := ih h
    exact ⟨Files.after line s filed, ready, apart⟩
  | others _ step ih =>
    obtain ⟨filed, ready, apart⟩ := Engine.lawOfFiled.step (ih _) step
    exact ⟨filed, ready, apart⟩

theorem Shared.filed (shared : Shared s waiting) : s.engine.pool.Filed :=
  (shared.orderly []).holds

end Shell
end PagedHeap
