import PagedHeap.Proofs.ShellAborts

/-! Commands on records outside a transaction. Such a command is as good as a line that begins a
transaction, the command in it, and a line that commits it, or aborts it if the command failed. -/
namespace PagedHeap

def Command.onRecords : Command → Prop
  | .insert _ | .delete .. | .scan => True
  | _ => False

namespace Shell

open Engine (Serves Only)

variable {α β : Type} {s : Shell} {txn : TxnId} {line : String} {command : Command}

theorem afterOk {t : Shell} {reply : Reply} (done : execute line s = .ok reply t) :
    s.after line = t := by
  unfold after
  rw [done]

theorem afterError {t : Shell} {cause : ShellError} (failed : execute line s = .error cause t) :
    s.after line = t := by
  unfold after
  rw [failed]

/- The same by hand, line after line. -/

theorem meansWord {fields : Nat} (cut : words line = [line])
    (known : Command.readWords fields line [] = .ok command) :
    means fields line command = true := by
  have told : Command.read fields line = .ok (some command) := by
    unfold Command.read
    rw [cut]
    change some <$> Command.readWords fields line [] = _
    rw [known]
    rfl
  unfold means
  rw [told]
  exact decide_eq_true rfl

theorem meansBegin (fields : Nat) : means fields "begin" .begin = true :=
  meansWord (by decide) rfl

theorem meansCommit (fields : Nat) : means fields "commit" .commit = true :=
  meansWord (by decide) rfl

theorem meansAbort (fields : Nat) : means fields "abort" .abort = true :=
  meansWord (by decide) rfl

def worded (f : α → β) : EStateM.Result ShellError Shell α → EStateM.Result ShellError Shell β
  | .ok a t => .ok (f a) t
  | .error cause t => .error cause t

theorem bindWorded (work : Work α) (f : α → β) (s : Shell) :
    (work >>= fun a => pure (f a)) s = worded f (work s) := by
  change EStateM.bind work _ s = _
  unfold EStateM.bind
  cases work s <;> rfl

theorem wordedTwice {γ : Type} (f : α → β) (g : β → γ) (r : EStateM.Result ShellError Shell α) :
    worded g (worded f r) = worded (g ∘ f) r := by
  cases r <;> rfl

/- Commits behind work that worked well, and aborts behind work that failed. Nobody hears what the
abort answers. -/
def closing : EStateM.Result ShellError Shell α → EStateM.Result ShellError Shell α
  | .ok a t => (execute "commit" >>= fun _ => pure a) t
  | .error cause t => .error cause (t.after "abort")

def bracketed (s : Shell) (line : String) : EStateM.Result ShellError Shell Reply :=
  closing (execute line (s.after "begin"))

/- How the abort behind a failed line goes: it takes the transaction back, or finds that the
wait for a lock has ended it already. -/
def TakenBack (txn : TxnId) (cause : ShellError) (t : Shell) : Prop :=
  (t.current = some txn ∧
    execute "abort" t = .ok (.text s!"ABORT {txn.text}") (t.after "abort")) ∨
  (t.current = none ∧ (∃ c, cause = .engine c ∧ c.isAborted = true) ∧
    execute "abort" t = .error .noneOpen t)

theorem closingWorded (f : α → β) (r : EStateM.Result ShellError Shell α) :
    closing (worded f r) = worded f (closing r) := by
  cases r with
  | error cause t => rfl
  | ok a t =>
    change (execute "commit" >>= fun _ => pure (f a)) t =
      worded f ((execute "commit" >>= fun _ => pure a) t)
    rw [bindWorded, bindWorded, wordedTwice]
    rfl

theorem commitOpen (opened : s.current = some txn) :
    execute "commit" s = worded (fun _ => .text s!"COMMIT {txn.text}")
      (onEngine (Engine.commit txn) {s with current := none}) := by
  rw [executeSaid (meansCommit _), ← bindWorded]
  change EStateM.bind takeCurrent _ s = _
  rw [EStateM.bind, takeOpen opened]

theorem abortOpen {e : Engine} (opened : s.current = some txn)
    (aborted : Engine.abort txn s.engine = .ok () e) :
    execute "abort" s = .ok (.text s!"ABORT {txn.text}") {s with engine := e, current := none} := by
  rw [executeSaid (meansAbort _)]
  change EStateM.bind takeCurrent _ s = _
  rw [EStateM.bind, takeOpen opened]
  change EStateM.bind (onEngine (Engine.abort txn)) _ {s with current := none} = _
  rw [EStateM.bind, engineOk (s := {s with current := none}) aborted]
  rfl

theorem abortNone (closed : s.current = none) : execute "abort" s = .error .noneOpen s := by
  rw [executeSaid (meansAbort _)]
  change EStateM.bind takeCurrent _ s = _
  unfold takeCurrent
  rw [EStateM.bind, getThen, closed]
  rfl

theorem giveUpOk {e : Engine} {cause : Error} (aborted : Engine.abort txn s.engine = .ok () e) :
    (giveUp txn cause s : EStateM.Result ShellError Shell α) =
      .error (.engine cause) {s with engine := e, current := none} := by
  unfold giveUp
  change EStateM.bind (onEngine (Engine.abort txn)) _ s = _
  rw [EStateM.bind, engineOk aborted]
  rfl

/- One command in a transaction of its own, and in the open one. -/

structure WorksBy (command : Command) (s : Shell) (work : TxnId → Activity Engine α)
    (reply : α → Reply) : Prop where
  serves : ∀ txn, Serves (some txn) (work txn)
  performs : ∀ t : Shell, t.table = s.table → t.fields = s.fields →
    perform command t = worded reply (inTransaction work t)

theorem recordsWork (s : Shell) (works : command.onRecords) :
    ∃ (α : Type) (work : TxnId → Activity Engine α) (reply : α → Reply),
      WorksBy command s work reply := by
  cases command with
  | insert values =>
    refine ⟨Rid, (Engine.insert · s.table values), fun rid => .text
      s!"INSERT page {rid.page.number.toNat} slot {rid.slot.toNat}",
      fun txn => Engine.insertServes txn s.table values, fun t table _ => ?_⟩
    rw [← table, ← bindWorded]
    rfl
  | delete page slot =>
    refine ⟨Unit, (Engine.delete · ⟨⟨s.table, page⟩, slot⟩), fun _ => .text
      s!"DELETE page {page.toNat} slot {slot.toNat}",
      fun txn => Engine.deleteServes txn ⟨⟨s.table, page⟩, slot⟩, fun t table _ => ?_⟩
    rw [← table, ← bindWorded]
    rfl
  | scan =>
    refine ⟨List Record, fun txn => Engine.scan (some txn) s.table,
      fun records => .text (grid s.fields records).text,
      fun txn => Engine.scanServes (some txn) s.table, fun t table fields => ?_⟩
    rw [← table, ← fields, ← bindWorded]
    rfl
  | _ => exact works.elim

theorem inOwnWorked {work : Activity Engine α} {answer : Except Error α} {e : Engine}
    (worked : work.attempt.settled s.engine = .ok answer e) :
    inOwn txn work s = (match answer with
      | .ok a => onEngine (Engine.commit txn) >>= fun _ => pure a
      | .error cause => giveUp txn cause : Work α) {s with engine := e} := by
  unfold inOwn
  change EStateM.bind (onEngine work.attempt.settled) _ s = _
  rw [EStateM.bind, engineOk worked]
  cases answer <;> rfl

theorem inOpenWorked {work : Activity Engine α} {answer : Except Error α} {e : Engine}
    (worked : work.attempt.settled s.engine = .ok answer e) :
    inOpen txn work s = (match answer with
      | .ok a => pure a
      | .error cause => if cause.isAborted then giveUp txn cause else throw (.engine cause) :
        Work α) {s with engine := e} := by
  unfold inOpen
  change EStateM.bind (onEngine work.attempt.settled) _ s = _
  rw [EStateM.bind, engineOk worked]
  cases answer <;> rfl

theorem commitOpened {e : Engine} (a : α) (closed : s.current = none) :
    closing (.ok a {s with engine := e, current := some txn}) =
      (onEngine (Engine.commit txn) >>= fun _ => pure a) {s with engine := e} := by
  have own : {s with engine := e} = {s with engine := e, current := none} := by rw [← closed]
  change (execute "commit" >>= fun _ => pure a) {s with engine := e, current := some txn} = _
  rw [own, bindWorded, bindWorded, commitOpen rfl, wordedTwice]
  rfl

theorem abortOpened {e : Engine} (cause : Error) (runs : e.Runs txn) :
    closing ((if cause.isAborted then giveUp txn cause else throw (.engine cause) : Work α)
        {s with engine := e, current := some txn}) = giveUp txn cause {s with engine := e} ∧
      ∀ told t, (if cause.isAborted then giveUp txn cause else throw (.engine cause) : Work α)
        {s with engine := e, current := some txn} = .error told t → TakenBack txn told t := by
  obtain ⟨f, aborted, _⟩ := Engine.abortEnded runs
  have given (current : Option TxnId) :
      (giveUp txn cause {s with engine := e, current := current} : EStateM.Result _ _ α) =
        .error (.engine cause) {s with engine := f, current := none} := giveUpOk aborted
  have own : (giveUp txn cause {s with engine := e} : EStateM.Result _ _ α) =
      .error (.engine cause) {s with engine := f, current := none} := given s.current
  split
  · rename_i waited
    have late := abortNone (s := {s with engine := f, current := none}) rfl
    rw [given, own]
    refine ⟨congrArg (EStateM.Result.error _) (afterError late), fun told t failed => ?_⟩
    cases failed
    exact .inr ⟨rfl, ⟨cause, rfl, waited⟩, late⟩
  · have back := abortOpen (s := {s with engine := e, current := some txn}) rfl aborted
    rw [own]
    refine ⟨congrArg (EStateM.Result.error _) (afterOk back), fun told t failed => ?_⟩
    cases failed
    exact .inl ⟨rfl, back.trans (congrArg (EStateM.Result.ok _) (afterOk back).symm)⟩

theorem inOwnBracketed {work : TxnId → Activity Engine α} (closed : s.current = none)
    (runs : s.engine.Runs txn) (serves : ∀ txn, Serves (some txn) (work txn)) :
    inOwn txn (work txn) s = closing (inTransaction work {s with current := some txn}) ∧
      ∀ cause t, inTransaction work {s with current := some txn} = .error cause t →
        TakenBack txn cause t := by
  have opened : inTransaction work {s with current := some txn} =
      inOpen txn (work txn) {s with current := some txn} := by
    unfold inTransaction
    rw [getThen]
  have only := attemptOnly (serves txn) s.engine
  cases worked : (work txn).attempt.settled s.engine with
  | error _ _ =>
    rw [worked] at only
    exact only.elim
  | ok answer e =>
    rw [worked] at only
    rw [opened, inOwnWorked worked, inOpenWorked (s := {s with current := some txn}) worked]
    cases answer with
    | ok a => exact ⟨(commitOpened a closed).symm, nofun⟩
    | error cause =>
      obtain ⟨same, back⟩ := abortOpened (α := α) (s := s) cause (Only.runs only runs)
      exact ⟨same.symm, back⟩

/-- Autocommit: outside a transaction a command on records leaves the very state, and answers or
fails with the very words, of three lines that begin a transaction, run the command in it, and
commit it or abort it. The first goes well; the last fails only to commit, or because a wait for
a lock has cost the transaction already. -/
theorem autocommits (closed : s.current = none) (told : means s.fields line command = true)
    (works : command.onRecords) :
    execute "begin" s =
      .ok (.text s!"BEGIN {s.engine.ledger.nextTxn.text}") (s.after "begin") ∧
    execute line s = s.bracketed line ∧
    ∀ cause t, execute line (s.after "begin") = .error cause t →
      TakenBack s.engine.ledger.nextTxn cause t := by
  let b : Shell := {s with engine := {s.engine with ledger := s.engine.ledger.begin.2}}
  have begun : s.after "begin" = {b with current := some s.engine.ledger.nextTxn} :=
    beginOpens closed (meansBegin _)
  have runs : b.engine.Runs s.engine.ledger.nextTxn :=
    (Ledger.statusMark ..).trans (if_pos rfl)
  obtain ⟨α, work, reply, does⟩ := recordsWork s works
  obtain ⟨same, back⟩ := inOwnBracketed (s := b) closed runs does.serves
  have inside : execute line (s.after "begin") =
      worded reply (inTransaction work (s.after "begin")) := by
    rw [begun, executeSaid (s := {b with current := some s.engine.ledger.nextTxn}) told]
    exact does.performs _ rfl rfl
  have outside : execute line s = worded reply (inTransaction work s) :=
    (executeSaid told).trans (does.performs s rfl rfl)
  have own : inTransaction work s =
      inOwn s.engine.ledger.nextTxn (work s.engine.ledger.nextTxn) b := by
    rw [inTransactionAlone closed]
    rfl
  refine ⟨?_, ?_, fun cause t failed => ?_⟩
  · rw [begun, executeSaid (meansBegin _)]
    change Shell.begin s = _
    unfold Shell.begin
    rw [getThen, closed]
    rfl
  · unfold bracketed
    rw [inside, closingWorded, begun, ← same, outside, own]
  · rw [inside, begun] at failed
    cases worked : inTransaction work {b with current := some s.engine.ledger.nextTxn} with
    | ok a u =>
      rw [worked] at failed
      cases failed
    | error told u =>
      rw [worked] at failed
      cases failed
      exact back cause t worked

theorem sampleAutocommits : sampleShell.current = none ∧
    means sampleShell.fields "insert 7" (.insert [7]) = true ∧
    (sampleShell.after "begin").answer "insert 7" = .ok (.text "INSERT page 0 slot 0") ∧
    sampleShell.answer "insert 7" = .error (.engine (.storage .shortRead)) ∧
    execute "insert 7" sampleShell = sampleShell.bracketed "insert 7" := by
  have closed : sampleShell.current = none := rfl
  have told : means sampleShell.fields "insert 7" (.insert [7]) = true := by decide
  obtain ⟨_, same, _⟩ := autocommits closed told trivial
  exact ⟨closed, told, by decide, by decide +kernel, same⟩

end Shell
end PagedHeap
