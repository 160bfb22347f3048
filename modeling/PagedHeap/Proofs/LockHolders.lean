import PagedHeap.Proofs.EngineLaws
import PagedHeap.Proofs.LockEffects

/-! Who holds locks. Work on records takes locks for whatever transaction it is told, and a
commit or an abort gives them back only if the transaction runs. So a transaction on whose
behalf nobody works but while it runs never holds a lock that it cannot give back, whatever
is done on behalf of others. -/
namespace PagedHeap

def Engine.opening (name : String) (width : Nat) : Instant Engine TableId :=
  EStateM.adaptExcept OpenError.cause (openTable name width)

/- All that an engine can be asked for. -/
inductive Operation where
  | openTable (name : String) (width : Nat)
  | request (r : Request)
  | flush

inductive Response where
  | opened (table : TableId)
  | answered (a : Answer)
  | flushed

namespace Operation

def txn? : Operation → Option TxnId
  | .request r => r.txn?
  | .openTable .. | .flush => none

def user? : Operation → Option TxnId
  | .request r => r.user?
  | .openTable .. | .flush => none

def work : Operation → Activity Engine Response
  | .openTable name width => do
    return .opened (← Engine.opening name width)
  | .request r => do return .answered (← r.work)
  | .flush => do
    Engine.flush
    return .flushed

end Operation

namespace Engine

open Pool (ActsFor ActsOnlyFor KeepsLocks)

/- An engine that is asked for what is admitted. -/
def serving (admits : Operation → Engine → Prop) : Service Engine Operation Response :=
  ⟨Operation.txn?, Operation.work, admits⟩

def Runs (txn : TxnId) (e : Engine) : Prop := e.ledger.status? txn = some .running

variable {α β : Type} {who : Option TxnId} {txn : TxnId} {e e' : Engine}

/- What the operations do to locks and to the ledger. -/

structure Only (who : Option TxnId) (e e' : Engine) : Prop where
  locks : ActsFor who e.pool e'.pool
  ledger : e'.ledger = e.ledger

theorem Only.refl (who : Option TxnId) (e : Engine) : Only who e e := ⟨.refl who _, rfl⟩

theorem Only.trans {e'' : Engine} (first : Only who e e') (second : Only who e' e'') :
    Only who e e'' := ⟨first.locks.trans second.locks, second.ledger.trans first.ledger⟩

/- Work for one transaction, which does not ask how any of them stand. -/
def Serves (who : Option TxnId) (work : Activity Engine α) : Prop :=
  ∀ e, (work e).Meets (Only who) (fun _ _ => True) (fun e _ e' => Only who e e') e

theorem Serves.within {work : Activity Pool α} (minds : ActsOnlyFor who work) :
    Serves who (work.within poolPart) := fun e =>
  (Progress.Meets.inPart (minds (poolPart.get e))).mono
    (fun _ _ stretch => ⟨stretch.1, (congrArg Engine.ledger stretch.2).trans rfl⟩)
    (fun _ _ any => any) (fun _ _ _ done => ⟨done.1, (congrArg Engine.ledger done.2).trans rfl⟩)

theorem Serves.bind {work : Activity Engine α} {next : α → Activity Engine β}
    (first : Serves who work) (rest : ∀ a, Serves who (next a)) : Serves who (work >>= next) :=
  fun e => Progress.Meets.chain (.refl who) (fun _ _ _ => .trans) (first e) rest

theorem Serves.lift {work : Instant Engine α}
    (h : ∀ e, Ends (fun _ e' => Only who e e') (Only who e) (work e)) :
    Serves who (monadLift work) := fun e => Progress.meetsEnded (h e)

theorem onPoolOnly {work : Instant Pool α} (keeps : KeepsLocks work) (e : Engine) :
    Ends (fun _ e' => Only who e e') (Only who e) (onPool work e) :=
  Ends.inPart ((keeps e.pool).mono (fun _ _ same => ⟨.ofLocks same, rfl⟩)
    (fun _ same => ⟨.ofLocks same, rfl⟩))

theorem insertServes (txn : TxnId) (table : TableId) (values : List Int32) :
    Serves (some txn) (insert txn table values) := .within (Pool.insertActsFor txn table _)

theorem deleteServes (txn : TxnId) (rid : Rid) : Serves (some txn) (delete txn rid) :=
  .within (Pool.deleteActsFor txn (some rid))

theorem scanServes (who : Option TxnId) (id : TableId) : Serves who (scan who id) :=
  .bind (.lift (onPoolOnly (Pool.tableKeeps id))) fun file => .within (Pool.scanActsFor who file)

/- Opening a table takes no other way for being told in other words. -/

theorem adaptBind {ε ε' σ : Type} (wording : ε → ε') (work : EStateM ε σ α)
    (next : α → EStateM ε σ β) :
    EStateM.adaptExcept wording (work >>= next) =
      EStateM.adaptExcept wording work >>= fun a => EStateM.adaptExcept wording (next a) := by
  funext s
  simp only [EStateM.adaptExcept, bind, EStateM.bind]
  cases work s <;> rfl

theorem adaptBack {ε ε' σ : Type} {back : ε' → ε} {wording : ε → ε'}
    (undoes : ∀ cause, back (wording cause) = cause) (work : EStateM ε σ α) :
    EStateM.adaptExcept back (EStateM.adaptExcept wording work) = work := by
  funext s
  simp only [EStateM.adaptExcept]
  cases work s with
  | ok a t => rfl
  | error cause t => exact congrArg (EStateM.Result.error · t) (undoes cause)

theorem openingPlain (name : String) (width : Nat) :
    opening name width = (do
      let e ← get
      let file ← onPool (Pool.onStorage (HeapFile.onFile name e.nextTable width e.config.pageSize))
      onPool (Pool.register file)
      modify fun s => {s with nextTable := e.nextTable + 1}
      pure e.nextTable) := by
  unfold opening openTable
  rw [adaptBind]
  refine congrArg (get >>= ·) (funext fun e => ?_)
  rw [adaptBind, adaptBack (fun _ => rfl)]
  refine congrArg (_ >>= ·) (funext fun file => ?_)
  rw [adaptBind, adaptBack (fun _ => rfl)]
  rfl

theorem openingOnly (name : String) (width : Nat) (e : Engine) :
    Ends (fun _ e' => Only none e e') (Only none e) (opening name width e) := by
  rw [openingPlain]
  refine (onPoolOnly (Pool.asideStorage (fun _ _ => rfl) _) e).andThen (fun file a made => ?_)
    (fun _ made => made)
  refine (onPoolOnly (Pool.registerKeeps file) a).andThen (fun _ b kept => ?_)
    (fun _ kept => made.trans kept)
  exact (made.trans kept).trans ⟨.refl none _, rfl⟩

/- The ends of transactions. -/

structure Ended (txn : TxnId) (status : Status) (e e' : Engine) : Prop where
  locks : ActsFor (some txn) e.pool e'.pool
  none : e'.pool.locks.heldBy txn = []
  ledger : e'.ledger = e.ledger.mark txn status

theorem commitEnded (txn : TxnId) (e : Engine) :
    Ends (fun _ e' => Ended txn .committed e e') (fun e' => Only none e e') (commit txn e) := by
  refine (finishEnds (Pool.commitLocks txn e.pool)).mono (fun _ e' ended => ?_)
    (fun e' failed => ?_)
  · exact ⟨ended.2.1.1, ended.2.1.2, ended.2.2⟩
  · rcases failed with ⟨_, rfl⟩ | ⟨_, kept, ledger⟩
    · exact .refl none e'
    · exact ⟨.ofLocks kept, ledger⟩

theorem abortEnds (txn : TxnId) (e : Engine) :
    Ends (fun _ e' => Ended txn .aborted e e') (fun e' => ¬ e.Runs txn ∧ e' = e) (abort txn e) := by
  refine (finishEnds (Pool.abortLocks txn e.pool)).mono (fun _ e' ended => ?_) (fun e' failed => ?_)
  · exact ⟨ended.2.1.1, ended.2.1.2, ended.2.2⟩
  · exact failed.resolve_right fun none => none.2.1

theorem abortEnded (runs : e.Runs txn) :
    ∃ e', abort txn e = .ok () e' ∧ Ended txn .aborted e e' := by
  have ended := abortEnds txn e
  cases done : abort txn e with
  | ok _ e' =>
    rw [done] at ended
    exact ⟨e', rfl, ended⟩
  | error cause e' =>
    rw [done] at ended
    exact absurd runs ended.1

/- A transaction on whose behalf work is done only while it runs. -/

def Answerable (txn : TxnId) (e : Engine) : Prop :=
  e.pool.locks.heldBy txn ≠ [] → e.Runs txn

/- What one operation does about the transaction. -/
structure Careful (txn : TxnId) (o : Operation) (e e' : Engine) : Prop where
  answerable : Answerable txn e → Answerable txn e'
  runs : o.txn? ≠ some txn → e.Runs txn → e'.Runs txn

theorem Only.runs (only : Only who e e') (runs : e.Runs txn) : e'.Runs txn := by
  unfold Runs
  rw [only.ledger]
  exact runs

theorem Only.careful {o : Operation} (only : Only who e e')
    (own : who = some txn → e.Runs txn) : Careful txn o e e' where
  answerable answerable held := by
    by_cases mine : who = some txn
    · exact only.runs (own mine)
    · rw [only.locks txn mine] at held
      exact only.runs (answerable held)
  runs _ := only.runs

theorem Ended.careful {maker : TxnId} {status : Status} {o : Operation}
    (ended : Ended maker status e e') (ends : o.txn? = some maker) : Careful txn o e e' := by
  have others (apart : maker ≠ txn) (runs : e.Runs txn) : e'.Runs txn := by
    unfold Runs
    rw [ended.ledger, Ledger.statusMark, if_neg apart]
    exact runs
  refine ⟨fun answerable held => ?_, fun apart => others fun same => apart (same ▸ ends)⟩
  by_cases mine : maker = txn
  · subst mine
    exact absurd ended.none held
  · rw [ended.locks txn fun same => mine (Option.some.inj same)] at held
    exact others mine (answerable held)

theorem beginCareful (e : Engine) : Careful txn (.request .begin) e {e with
    ledger := e.ledger.begin.2} := by
  have runs (before : e.Runs txn) : Runs txn {e with ledger := e.ledger.begin.2} := by
    refine (Ledger.statusMark ..).trans ?_
    split
    · rfl
    · exact before
  exact ⟨fun answerable held => runs (answerable held), fun _ => runs⟩

def Meanwhile (txn : TxnId) (o : Operation) (e e' : Engine) : Prop :=
  o.txn? = some txn → e.Runs txn → e'.Runs txn

def StaysCareful (txn : TxnId) (o : Operation) (work : Progress Engine α) (e : Engine) : Prop :=
  work.Meets (Careful txn o) (Meanwhile txn o) (fun e _ e' => Careful txn o e e') e

theorem StaysCareful.instant {o : Operation} {r : EStateM.Result Error Engine α}
    (h : Ends (fun _ e' => Careful txn o e e') (Careful txn o e) r) :
    StaysCareful txn o (.ended r) e :=
  Progress.meetsEnded h

theorem StaysCareful.answer {o : Operation} {work : Progress Engine α}
    (h : StaysCareful txn o work e)
    (answer : α → β) : StaysCareful txn o (work.andThen fun a e => .ended (.ok (answer a) e)) e :=
  Progress.Meets.andThen h fun _ _ _ careful => careful

theorem Serves.tends {work : Activity Engine α} {o : Operation} (serves : Serves who work)
    (mine : o.txn? = who) (own : who = some txn → e.Runs txn) : StaysCareful txn o (work e) e := by
  subst mine
  have kept := ((serves e).mono (fun _ _ same => same) (fun _ _ _ => trivial)
    (fun _ _ _ same => same)).keepAll (fun e => o.txn? = some txn → e.Runs txn)
    (fun _ _ runs only mine => only.runs (runs mine))
    (fun _ _ runs (others : Meanwhile txn o _ _) mine => others mine (runs mine)) own
  exact kept.mono (fun _ _ both => both.2.careful both.1) (fun _ _ same => same)
    (fun _ _ _ both => both.2.careful both.1)

theorem StaysCareful.quiet {o : Operation} {r : EStateM.Result Error Engine α}
    (h : Ends (fun _ e' => Only none e e') (Only none e) r) : StaysCareful txn o (.ended r) e :=
  .instant (h.mono (fun _ _ only => only.careful nofun) (fun _ only => only.careful nofun))

theorem commitCareful (maker : TxnId) (e : Engine) :
    StaysCareful txn (.request (.commit maker)) (.ended (commit maker e)) e :=
  .instant ((commitEnded maker e).mono (fun _ _ ended => ended.careful rfl)
    (fun _ only => only.careful nofun))

theorem abortCareful (maker : TxnId) (e : Engine) :
    StaysCareful txn (.request (.abort maker)) (.ended (abort maker e)) e :=
  .instant ((abortEnds maker e).mono (fun _ _ ended => ended.careful rfl)
    (fun e' refused => refused.2 ▸ (Only.refl none e').careful nofun))

theorem operationCareful (o : Operation) (admitted : o.user? = some txn → e.Runs txn) :
    StaysCareful txn o (o.work e) e := by
  cases o with
  | openTable name width => exact (StaysCareful.quiet (openingOnly name width e)).answer _
  | flush => exact (StaysCareful.quiet (onPoolOnly Pool.flushAllKeeps e)).answer _
  | request r =>
    refine StaysCareful.answer ?_ _
    cases r with
    | begin => exact beginCareful e
    | insert maker table values =>
      exact ((insertServes maker table values).tends rfl admitted).answer _
    | delete maker rid => exact ((deleteServes maker rid).tends rfl admitted).answer _
    | scan who table => exact ((scanServes who table).tends rfl admitted).answer _
    | commit maker => exact (commitCareful maker e).answer _
    | abort maker => exact (abortCareful maker e).answer _

/- Others may work for whomever they like. -/
def minding (txn : TxnId) : Service Engine Operation Response :=
  serving fun o e => o.user? = some txn → e.Runs txn

theorem lawOfMinding (txn : TxnId) : (minding txn).Law (fun _ => Answerable txn)
    (Careful txn) (Meanwhile txn) (fun o e _ e' => Careful txn o e e') where
  works o _ admitted := operationCareful o admitted
  stops _ answerable careful := careful.answerable answerable
  fails _ _ answerable careful := careful.answerable answerable
  ends _ _ answerable careful := careful.answerable answerable
  idle _ _ := fun _ runs => runs
  join _ _ _ _ first second := fun mine runs => second mine (first mine runs)
  aside _ _ _ free careful := fun mine runs => careful.runs (fun theirs => free _ theirs mine) runs
  asideDone _ _ _ _ free careful :=
    fun mine runs => careful.runs (fun theirs => free _ theirs mine) runs

variable {start : Engine} {h : History Operation Response}
  {t : Traffic Engine Operation Response}

/-- As long as nobody works on records for a transaction but while it runs, it holds no locks
but while it runs, so that it can always give them back; work for others may be for
transactions that ended or never began. -/
theorem holdersRun (free : start.pool.locks = .empty)
    (run : (minding txn).Run start h t) (holds : t.state.pool.locks.heldBy txn ≠ []) :
    t.state.Runs txn ∧
      ∃ e', abort txn t.state = .ok () e' ∧ e'.pool.locks.heldBy txn = [] := by
  have initial : Answerable txn start := fun held => by
    rw [free] at held
    exact absurd rfl held
  have runs := ((lawOfMinding txn).run initial run).holds holds
  obtain ⟨e', done, ended⟩ := abortEnded runs
  exact ⟨runs, e', done, ended.none⟩

/- A transaction that fills a page holds its lock while it runs. One that looks at the page
once it is committed holds a lock for good. -/

def sampleFilled : History Operation Response × Traffic Engine Operation Response :=
  (minding 1).next (.request (.insert 1 1 [7]))
    ((minding 1).next (.request .begin) ([], ⟨sampleStart, []⟩))

theorem sampleHolderRuns : (minding 1).Run sampleStart sampleFilled.1 sampleFilled.2 ∧
    sampleFilled.2.state.pool.locks.heldBy 1 = [⟨1, ⟨1, 0⟩, .exclusive⟩] ∧
    sampleFilled.2.state.Runs 1 := by
  have run : (minding 1).Run sampleStart sampleFilled.1 sampleFilled.2 :=
    .alone (minding 1) (.alone (minding 1) .start (.request .begin) nofun rfl)
      (.request (.insert 1 1 [7])) (fun _ => rfl) rfl
  have held : sampleFilled.2.state.pool.locks.heldBy 1 = [⟨1, ⟨1, 0⟩, .exclusive⟩] := rfl
  exact ⟨run, held, (holdersRun rfl run (by rw [held]; exact List.cons_ne_nil _ _)).1⟩

def obliging : Service Engine Operation Response := serving fun _ _ => True

def sampleLate : History Operation Response × Traffic Engine Operation Response :=
  obliging.next (.request (.scan (some 1) 1)) (obliging.next (.request (.commit 1))
    (obliging.next (.request .begin) ([], ⟨sampleStart, []⟩)))

theorem lateScanHolds : obliging.Run sampleStart sampleLate.1 sampleLate.2 ∧
    sampleLate.2.state.pool.locks.heldBy 1 = [⟨1, ⟨1, 0⟩, .shared⟩] ∧
    ¬ sampleLate.2.state.Runs 1 ∧
    abort 1 sampleLate.2.state =
      .error (.invalid (.alreadyEnded 1 .committed)) sampleLate.2.state := by
  have run : obliging.Run sampleStart sampleLate.1 sampleLate.2 :=
    .alone obliging (.alone obliging (.alone obliging .start (.request .begin) trivial rfl)
      (.request (.commit 1)) trivial rfl) (.request (.scan (some 1) 1)) trivial rfl
  exact ⟨run, rfl, nofun, rfl⟩

end Engine
end PagedHeap
