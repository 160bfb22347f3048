import Mathlib.Data.List.Induction
import PagedHeap.Shell
import PagedHeap.Proofs.LockHolders

/-! Which transactions a shell leaves behind. Each line works for the open transaction or for
one of its own, and takes back what it began if the work fails. But it lets go of a
transaction before it commits it, and if the commit fails nobody takes that up again: such a
transaction runs on, with its locks, and is not the open one. Nothing else is left behind. -/
namespace PagedHeap

open Engine (Runs Only Ended Serves)

/- The transactions of a shell that is idle or has one open, and stray ones. -/
structure Tidy (stray : TxnId → Prop) (current : Option TxnId) (e : Engine) : Prop where
  runs : ∀ txn, current = some txn → e.Runs txn
  holders : ∀ txn, e.pool.locks.heldBy txn ≠ [] → e.Runs txn
  known : ∀ txn, e.Runs txn → current = some txn ∨ stray txn

namespace Tidy

variable {stray more : TxnId → Prop} {current : Option TxnId} {txn : TxnId} {e e' : Engine}

theorem mono (tidy : Tidy stray current e) (wider : ∀ txn, stray txn → more txn) :
    Tidy more current e :=
  ⟨tidy.runs, tidy.holders, fun txn runs => (tidy.known txn runs).imp_right (wider txn)⟩

theorem only (tidy : Tidy stray current e) {who : Option TxnId} (only : Only who e e')
    (own : ∀ txn, who = some txn → current = some txn) : Tidy stray current e' := by
  have same (txn : TxnId) : e'.Runs txn ↔ e.Runs txn := by
    unfold Runs
    rw [only.ledger]
  refine ⟨fun txn opened => (same txn).mpr (tidy.runs txn opened), fun txn held => ?_,
    fun txn runs => tidy.known txn ((same txn).mp runs)⟩
  by_cases mine : who = some txn
  · exact (same txn).mpr (tidy.runs txn (own txn mine))
  · rw [only.locks txn mine] at held
    exact (same txn).mpr (tidy.holders txn held)

theorem begin (tidy : Tidy stray none e) :
    Tidy stray (some e.ledger.nextTxn) {e with ledger := e.ledger.begin.2} := by
  have status (txn : TxnId) : e.ledger.begin.2.status? txn =
      if e.ledger.nextTxn = txn then some .running else e.ledger.status? txn :=
    Ledger.statusMark ..
  have runs {txn : TxnId} (before : e.Runs txn) :
      Runs txn {e with ledger := e.ledger.begin.2} := by
    refine (status txn).trans ?_
    split
    · rfl
    · exact before
  refine ⟨fun txn same => ?_, fun txn held => runs (tidy.holders txn held), fun txn now => ?_⟩
  · obtain rfl := Option.some.inj same
    exact (status _).trans (if_pos rfl)
  · by_cases fresh : e.ledger.nextTxn = txn
    · exact .inl (congrArg some fresh)
    · have before : e.Runs txn := ((status txn).trans (if_neg fresh)).symm.trans now
      exact .inr ((tidy.known txn before).resolve_left nofun)

theorem ended (tidy : Tidy stray (some txn) e) {status : Status} (ends : status ≠ .running)
    (ended : Ended txn status e e') : Tidy stray none e' := by
  have stands (other : TxnId) : e'.ledger.status? other =
      if txn = other then some status else e.ledger.status? other := by
    rw [ended.ledger]
    exact Ledger.statusMark ..
  refine ⟨nofun, fun other held => ?_, fun other runs => ?_⟩
  · by_cases mine : txn = other
    · subst mine
      exact absurd ended.none held
    · rw [ended.locks other fun same => mine (Option.some.inj same)] at held
      exact (stands other).trans ((if_neg mine).trans (tidy.holders other held))
  · unfold Runs at runs
    rw [stands] at runs
    split at runs
    · exact absurd (Option.some.inj runs) ends
    · rename_i apart
      exact .inr ((tidy.known other runs).resolve_left fun same => apart (Option.some.inj same))

theorem letGo (tidy : Tidy stray (some txn) e) :
    Tidy (fun other => stray other ∨ other = txn) none e :=
  ⟨nofun, tidy.holders, fun other runs => .inr ((tidy.known other runs).symm.imp_right
    fun same => (Option.some.inj same).symm)⟩

end Tidy

namespace Shell

/- What a command answers and leaves, or how it fails and what it leaves then. -/
def Yields {α : Type} (done : α → Shell → Prop) (failed : ShellError → Shell → Prop) :
    EStateM.Result ShellError Shell α → Prop
  | .ok a s => done a s
  | .error cause s => failed cause s

variable {α β : Type} {stray : TxnId → Prop} {txn : TxnId} {s : Shell}

namespace Yields

variable {done : α → Shell → Prop} {failed : ShellError → Shell → Prop}

theorem andThen {work : Work α} {next : α → Work β} {final : β → Shell → Prop}
    {lost : ShellError → Shell → Prop} (first : Yields done failed (work s))
    (rest : ∀ a t, done a t → Yields final lost (next a t))
    (fails : ∀ cause t, failed cause t → lost cause t) :
    Yields final lost ((work >>= next) s) := by
  change Yields final lost (EStateM.bind work next s)
  unfold EStateM.bind
  cases ended : work s with
  | ok a t =>
    rw [ended] at first
    exact rest a t first
  | error cause t =>
    rw [ended] at first
    exact fails cause t first

theorem mono {done' : α → Shell → Prop} {failed' : ShellError → Shell → Prop}
    {r : EStateM.Result ShellError Shell α} (h : Yields done failed r)
    (answers : ∀ a s, done a s → done' a s) (fails : ∀ cause s, failed cause s → failed' cause s) :
    Yields done' failed' r := by
  cases r with
  | ok a s => exact answers a s h
  | error cause s => exact fails cause s h

theorem engine (work : Instant Engine α) (s : Shell) :
    Yields (fun a t => ∃ e, work s.engine = .ok a e ∧ t = {s with engine := e})
      (fun cause t => ∃ c e, cause = .engine c ∧ work s.engine = .error c e ∧
        t = {s with engine := e}) (onEngine work s) := by
  have inside : enginePart.instant work s = enginePart.outcome s (work s.engine) := rfl
  unfold onEngine EStateM.adaptExcept
  rw [inside]
  cases work s.engine with
  | ok a e => exact ⟨e, rfl, rfl⟩
  | error c e => exact ⟨c, e, rfl, rfl, rfl⟩

theorem ofEngine {work : Instant Engine α}
    (h : Ends (fun a e => done a {s with engine := e})
      (fun e => ∀ cause, failed (.engine cause) {s with engine := e}) (work s.engine)) :
    Yields done failed (onEngine work s) := by
  refine (engine work s).mono (fun a t ended => ?_) (fun cause t ended => ?_)
  · obtain ⟨e, same, rfl⟩ := ended
    rw [same] at h
    exact h
  · obtain ⟨c, e, rfl, same, rfl⟩ := ended
    rw [same] at h
    exact h c

end Yields

def Left (cause : ShellError) (s : Shell) (txn : TxnId) : Prop :=
  s.current = none ∧ ∃ c e, cause = .engine c ∧ e.Runs txn ∧
    Engine.commit txn e = .error c s.engine

/- Tidy but for the transaction that a failing command may have left behind. -/
def Keeps (stray : TxnId → Prop) : EStateM.Result ShellError Shell α → Prop :=
  Yields (fun _ s => Tidy stray s.current s.engine)
    (fun cause s => Tidy (fun txn => stray txn ∨ Left cause s txn) s.current s.engine)

theorem abortYields (tidy : Tidy stray (some txn) s.engine) :
    Yields (fun _ t => t.current = s.current ∧ Tidy stray none t.engine) (fun _ _ => False)
      (onEngine (Engine.abort txn) s) := by
  obtain ⟨e, done, ended⟩ := Engine.abortEnded (tidy.runs txn rfl)
  refine (Yields.engine (Engine.abort txn) s).mono (fun _ t aborted => ?_) (fun _ t failed => ?_)
  · obtain ⟨e', same, rfl⟩ := aborted
    rw [done] at same
    cases same
    exact ⟨rfl, tidy.ended (by decide) ended⟩
  · obtain ⟨_, _, _, failed, _⟩ := failed
    rw [done] at failed
    cases failed

theorem giveUpKeeps (cause : Error) (tidy : Tidy stray (some txn) s.engine) :
    Keeps stray (giveUp txn cause s : EStateM.Result ShellError Shell α) :=
  (abortYields tidy).andThen (fun _ _ aborted => aborted.2.mono fun _ => .inl)
    (fun _ _ none => none.elim)

theorem abortKeeps (tidy : Tidy stray (some txn) s.engine) (closed : s.current = none) :
    Keeps stray (onEngine (Engine.abort txn) s) := by
  refine (abortYields tidy).mono (fun _ t aborted => ?_) (fun _ _ none => none.elim)
  rw [aborted.1, closed]
  exact aborted.2

theorem commitKeeps (tidy : Tidy stray (some txn) s.engine) (closed : s.current = none) :
    Keeps stray (onEngine (Engine.commit txn) s) := by
  obtain ⟨engine, table, fields, current⟩ := s
  obtain rfl : current = none := closed
  have runs := tidy.runs txn rfl
  have ended := Engine.commitEnded txn engine
  have called := Yields.engine (Engine.commit txn) ⟨engine, table, fields, none⟩
  unfold Keeps
  cases done : onEngine (Engine.commit txn) ⟨engine, table, fields, none⟩ with
  | ok _ t =>
    rw [done] at called
    obtain ⟨e, same, rfl⟩ := called
    rw [same] at ended
    exact tidy.ended (by decide) ended
  | error cause t =>
    rw [done] at called
    obtain ⟨c, e, rfl, failed, rfl⟩ := called
    rw [failed] at ended
    have left : Left (.engine c) ⟨e, table, fields, none⟩ txn := ⟨rfl, c, engine, rfl, runs, failed⟩
    -- its locks are still held, and nobody is going to give them back
    have stranded : Tidy (fun other => stray other ∨ other = txn) none e :=
      (tidy.only ended nofun).letGo
    exact stranded.mono fun other known =>
      known.imp_right fun (same : other = txn) => same ▸ left

theorem attemptOnly {work : Activity Engine α} {who : Option TxnId} (serves : Serves who work)
    (e : Engine) : Ends (fun _ e' => Only who e e') (fun _ => False) (work.attempt.settled e) := by
  have settled : Ends (fun _ e' => Only who e e') (Only who e) (work.settled e) :=
    Progress.Meets.settle (Only.refl who) (fun _ => trivial) (fun _ _ _ => Only.trans) (serves e)
  exact settled.attempt.mono (fun answer _ only => by cases answer <;> exact only)
    (fun _ none => none)

theorem attemptYields {work : Activity Engine α} (serves : Serves (some txn) work)
    (tidy : Tidy stray (some txn) s.engine) :
    Yields (fun _ t => t.current = s.current ∧ Tidy stray (some txn) t.engine) (fun _ _ => False)
      (onEngine work.attempt.settled s) := by
  have only := attemptOnly serves s.engine
  have called := Yields.engine work.attempt.settled s
  cases ended : onEngine work.attempt.settled s with
  | ok a t =>
    rw [ended] at called
    obtain ⟨e, same, rfl⟩ := called
    rw [same] at only
    exact ⟨rfl, tidy.only only fun _ mine => mine⟩
  | error cause t =>
    rw [ended] at called
    obtain ⟨c, e, _, same, _⟩ := called
    rw [same] at only
    exact only

theorem inOpenKeeps {work : Activity Engine α} (serves : Serves (some txn) work)
    (opened : s.current = some txn) (tidy : Tidy stray s.current s.engine) :
    Keeps stray (inOpen txn work s) := by
  rw [opened] at tidy
  refine (attemptYields serves tidy).andThen (fun answer t worked => ?_) (fun _ _ none => none.elim)
  obtain ⟨same, tidy⟩ := worked
  have here : Tidy stray t.current t.engine := by rwa [same, opened]
  cases answer with
  | ok a => exact here
  | error cause =>
    change Keeps stray ((if cause.isAborted then giveUp txn cause else throw (.engine cause)) t)
    split
    · exact giveUpKeeps cause tidy
    · exact here.mono fun _ => .inl

theorem inOwnKeeps {work : Activity Engine α} (serves : Serves (some txn) work)
    (closed : s.current = none) (tidy : Tidy stray (some txn) s.engine) :
    Keeps stray (inOwn txn work s) := by
  refine (attemptYields serves tidy).andThen (fun answer t worked => ?_) (fun _ _ none => none.elim)
  obtain ⟨same, tidy⟩ := worked
  cases answer with
  | ok a =>
    exact (commitKeeps tidy (same.trans closed)).andThen (fun _ _ kept => kept)
      (fun _ _ kept => kept)
  | error cause => exact giveUpKeeps cause tidy

theorem inTransactionKeeps {work : TxnId → Activity Engine α}
    (serves : ∀ txn, Serves (some txn) (work txn)) (tidy : Tidy stray s.current s.engine) :
    Keeps stray (inTransaction work s) := by
  unfold inTransaction
  rw [getThen]
  cases opened : s.current with
  | some txn => exact inOpenKeeps (serves txn) opened tidy
  | none =>
    rw [opened] at tidy
    have begun : Tidy stray (some s.engine.ledger.nextTxn)
        {s.engine with ledger := s.engine.ledger.begin.2} := tidy.begin
    exact inOwnKeeps (serves _) (s := {s with engine := _}) opened begun

theorem takeYields (s : Shell) :
    Yields (fun txn t => s.current = some txn ∧ t = {s with current := none}) (fun _ t => t = s)
      (takeCurrent s) := by
  unfold takeCurrent
  rw [getThen]
  cases opened : s.current with
  | none => exact rfl
  | some txn => exact ⟨rfl, rfl⟩

theorem takenKeeps {work : TxnId → Work α} (tidy : Tidy stray s.current s.engine)
    (keeps : ∀ txn t, Tidy stray (some txn) t.engine → t.current = none →
      Keeps stray (work txn t)) :
    Keeps stray ((takeCurrent >>= work) s) := by
  refine (takeYields s).andThen (fun txn t taken => ?_) (fun _ t same => ?_)
  · obtain ⟨opened, rfl⟩ := taken
    exact keeps txn _ (opened ▸ tidy) rfl
  · subst same
    exact tidy.mono fun _ => .inl

theorem Keeps.answer {work : Work α} (keeps : Keeps stray (work s)) (answer : α → β) :
    Keeps stray ((work >>= fun a => pure (answer a)) s) :=
  keeps.andThen (fun _ _ kept => kept) (fun _ _ kept => kept)

theorem flushKeeps (tidy : Tidy stray s.current s.engine) :
    Keeps stray (onEngine Engine.flush s) := by
  have only : Ends (fun _ e => Only none s.engine e) (Only none s.engine) (Engine.flush s.engine) :=
    Engine.onPoolOnly Pool.flushAllKeeps s.engine
  exact Yields.ofEngine (only.mono (fun _ _ only => tidy.only only nofun)
    (fun _ only _ => (tidy.only only nofun).mono fun _ => .inl))

theorem performKeeps (command : Command) (tidy : Tidy stray s.current s.engine) :
    Keeps stray (perform command s) := by
  cases command with
  | begin =>
    change Keeps stray (Shell.begin s)
    unfold Shell.begin
    rw [getThen]
    cases opened : s.current with
    | some txn => exact tidy.mono fun _ => .inl
    | none =>
      rw [opened] at tidy
      exact tidy.begin
  | commit => exact takenKeeps tidy fun _ _ mine closed => (commitKeeps mine closed).answer _
  | abort => exact takenKeeps tidy fun _ _ mine closed => (abortKeeps mine closed).answer _
  | insert values =>
    exact (inTransactionKeeps (fun txn => Engine.insertServes txn s.table values) tidy).answer _
  | delete page slot =>
    exact (inTransactionKeeps (fun txn => Engine.deleteServes txn ⟨⟨s.table, page⟩, slot⟩)
      tidy).answer _
  | scan =>
    exact (inTransactionKeeps (fun txn => Engine.scanServes (some txn) s.table) tidy).answer _
  | flush => exact (flushKeeps tidy).answer _
  | stats => exact tidy
  | help => exact tidy
  | exit => exact tidy

theorem executeKeeps (line : String) (tidy : Tidy stray s.current s.engine) :
    Keeps stray (execute line s) := by
  unfold execute
  rw [getThen]
  cases Command.read s.fields line with
  | error cause => exact tidy.mono fun _ => .inl
  | ok command? =>
    cases command? with
    | none => exact tidy
    | some command => exact performKeeps command tidy

/- One line after the other. -/

def after (s : Shell) (line : String) : Shell :=
  match execute line s with
  | .ok _ t => t
  | .error _ t => t

def afterAll (s : Shell) (lines : List String) : Shell := lines.foldl after s

/- The line has tried to commit the transaction, in vain, and has left it behind. -/
def Strands (s : Shell) (line : String) (txn : TxnId) : Prop :=
  ∃ cause, execute line s = .error cause (s.after line) ∧ Left cause (s.after line) txn

def Stray (start : Shell) (lines : List String) (txn : TxnId) : Prop :=
  ∃ before line rest, lines = before ++ line :: rest ∧ (start.afterAll before).Strands line txn

theorem afterTidy (line : String) (tidy : Tidy stray s.current s.engine) :
    Tidy (fun txn => stray txn ∨ s.Strands line txn) (s.after line).current
      (s.after line).engine := by
  have kept := executeKeeps line tidy
  unfold Strands after
  cases executed : execute line s with
  | ok reply t =>
    rw [executed] at kept
    exact Tidy.mono kept fun _ => .inl
  | error cause t =>
    rw [executed] at kept
    exact Tidy.mono kept fun txn known => known.imp_right fun left => ⟨cause, rfl, left⟩

theorem afterAllTidy {start : Shell} (tidy : Tidy (fun _ => False) start.current start.engine)
    (lines : List String) : Tidy (Stray start lines) (start.afterAll lines).current
      (start.afterAll lines).engine := by
  induction lines using List.reverseRecOn with
  | nil => exact tidy.mono fun _ none => none.elim
  | append_singleton lines line ih =>
    have last : start.afterAll (lines ++ [line]) = (start.afterAll lines).after line :=
      List.foldl_append
    rw [last]
    refine (afterTidy line ih).mono fun txn known => ?_
    rcases known with ⟨before, earlier, rest, rfl, strands⟩ | strands
    · exact ⟨before, earlier, rest ++ [line], by simp, strands⟩
    · exact ⟨lines, line, [], rfl, strands⟩

structure Idle (s : Shell) : Prop where
  closed : s.current = none
  none : s.engine.ledger.active = []
  free : s.engine.pool.locks = .empty

theorem Idle.tidy (idle : s.Idle) : Tidy (fun _ => False) s.current s.engine := by
  refine ⟨fun txn opened => ?_, fun txn held => ?_, fun txn runs => ?_⟩
  · rw [idle.closed] at opened
    cases opened
  · rw [idle.free] at held
    exact absurd rfl held
  · have active : txn ∈ s.engine.ledger.active := Ledger.memActive.mpr runs
    rw [idle.none] at active
    exact (List.not_mem_nil active).elim

/-- After any lines, whatever has become of the calls of the volumes: the open transaction
runs, whoever holds locks runs, and whoever else runs was left behind by a line whose commit
failed. As long as none has, the open transaction is the only one that runs, and without one
nobody runs and nobody holds locks. -/
theorem strayCommitsOnly {start : Shell} (idle : start.Idle) (lines : List String) :
    (∀ txn, (start.afterAll lines).current = some txn →
      txn ∈ (start.afterAll lines).engine.ledger.active) ∧
    (∀ txn, (start.afterAll lines).engine.pool.locks.heldBy txn ≠ [] →
      txn ∈ (start.afterAll lines).engine.ledger.active) ∧
    (∀ txn ∈ (start.afterAll lines).engine.ledger.active,
      (start.afterAll lines).current = some txn ∨ start.Stray lines txn) ∧
    ((∀ txn, ¬ start.Stray lines txn) →
      (start.afterAll lines).engine.ledger.active = (start.afterAll lines).current.toList ∧
      ((start.afterAll lines).current = none →
        ∀ txn, (start.afterAll lines).engine.pool.locks.heldBy txn = [])) := by
  have tidy := afterAllTidy idle.tidy lines
  generalize start.afterAll lines = s at tidy
  refine ⟨fun txn opened => Ledger.memActive.mpr (tidy.runs txn opened),
    fun txn held => Ledger.memActive.mpr (tidy.holders txn held),
    fun txn active => tidy.known txn (Ledger.memActive.mp active), fun unbroken => ?_⟩
  have only (txn : TxnId) (runs : s.engine.Runs txn) : s.current = some txn :=
    (tidy.known txn runs).resolve_right (unbroken txn)
  have members (txn : TxnId) : txn ∈ s.engine.ledger.active ↔ txn ∈ s.current.toList := by
    rw [Ledger.memActive, Option.mem_toList]
    exact ⟨only txn, tidy.runs txn⟩
  have once : s.current.toList.Nodup := by cases s.current <;> simp
  have same : s.engine.ledger.active.Perm s.current.toList :=
    (List.perm_ext_iff_of_nodup (Ledger.activeNodup _) once).mpr members
  refine ⟨?_, fun closed txn => ?_⟩
  · cases opened : s.current with
    | none =>
      rw [opened] at same
      exact same.eq_nil
    | some txn =>
      rw [opened] at same
      exact List.perm_singleton.mp same
  · by_contra held
    have opened := only txn (tidy.holders txn held)
    rw [closed] at opened
    cases opened

/- A shell on a table that cannot be written to. -/

def sampleShell : Shell :=
  ofEngine (Engine.sampleTable [0, 0, 0, 0, 0, 0, 0, 0] [⟨.write, none, 1, .shortRead⟩]) 1 1

theorem sampleCommitStrays : sampleShell.Idle ∧ sampleShell.Stray ["insert 7"] 1 := by
  have idle : sampleShell.Idle := ⟨rfl, by decide +kernel, rfl⟩
  have closed : (sampleShell.afterAll ["insert 7"]).current = none := by decide +kernel
  have runs : 1 ∈ (sampleShell.afterAll ["insert 7"]).engine.ledger.active := by decide +kernel
  obtain ⟨_, _, known, _⟩ := strayCommitsOnly idle ["insert 7"]
  refine ⟨idle, (known 1 runs).resolve_left fun opened => ?_⟩
  rw [closed] at opened
  cases opened

/- The shell is idle, and yet a transaction runs and holds a lock. -/
theorem strayHoldsLock : (sampleShell.afterAll ["insert 7"]).current = none ∧
    (sampleShell.afterAll ["insert 7"]).engine.ledger.active = [1] ∧
    (sampleShell.afterAll ["insert 7"]).engine.pool.locks.heldBy 1 =
      [⟨1, ⟨1, 0⟩, .exclusive⟩] := by
  decide +kernel

end Shell
end PagedHeap
