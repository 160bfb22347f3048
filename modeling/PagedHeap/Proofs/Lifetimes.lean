import Mathlib.Data.List.Sort
import PagedHeap.Proofs.LockHolders

/-! The lives of transactions, from their beginning to the one end that they come to, as
the answers of an engine tell them, whatever else it is asked for. -/
namespace PagedHeap

abbrev Notice := TxnId × Status

namespace Notice

/- Of many notices the latest comes first. -/

def begun (notices : List Notice) : List TxnId := (notices.filter (·.2 = .running)).map Prod.fst

def life (txn : TxnId) (notices : List Notice) : List Status :=
  (notices.filter (·.1 = txn)).map Prod.snd

variable {notices : List Notice} {txn other : TxnId} {status : Status}

theorem lifeCons :
    life txn ((other, status) :: notices) =
      if other = txn then status :: life txn notices else life txn notices := by
  by_cases same : other = txn <;> simp [life, same]

theorem begunRunning : begun ((txn, .running) :: notices) = txn :: begun notices := rfl

theorem begunOver (past : status ≠ .running) :
    begun ((txn, status) :: notices) = begun notices := by
  simp [begun, past]

theorem memBegun : txn ∈ begun notices ↔ .running ∈ life txn notices := by
  simp only [begun, life, List.mem_map, List.mem_filter, decide_eq_true_eq, Prod.exists]
  constructor
  · rintro ⟨other, status, ⟨there, rfl⟩, rfl⟩
    exact ⟨other, .running, ⟨there, rfl⟩, rfl⟩
  · rintro ⟨other, status, ⟨there, rfl⟩, rfl⟩
    exact ⟨other, .running, ⟨there, rfl⟩, rfl⟩

/- The lives there are: none yet, one under way, and one that came to its only end. -/
inductive Lifetime : List Status → Prop where
  | unborn : Lifetime []
  | running : Lifetime [.running]
  | ended {last : Status} (past : last ≠ .running) : Lifetime [last, .running]

theorem Lifetime.head {statuses : List Status} (lived : Lifetime statuses)
    (runs : statuses.head? = some .running) : statuses = [.running] := by
  cases lived with
  | unborn => cases runs
  | running => rfl
  | ended past => exact absurd (Option.some.inj runs) past

theorem Lifetime.final {whole later statuses : List Status} (lived : Lifetime whole)
    (split : whole = later ++ statuses) (stood : statuses.head? = some status)
    (past : status ≠ .running) : whole = statuses := by
  obtain ⟨rest, rfl⟩ : ∃ rest, statuses = status :: rest := List.head?_eq_some_iff.mp stood
  cases lived with
  | unborn => simp at split
  | running =>
    rcases List.cons_eq_append_iff.mp split with ⟨-, same⟩ | ⟨_, -, nothing⟩
    · exact same.symm
    · simp at nothing
  | ended =>
    rcases List.cons_eq_append_iff.mp split with ⟨-, same⟩ | ⟨_, -, single⟩
    · exact same.symm
    · -- an end before the last one would be the beginning
      rcases List.cons_eq_append_iff.mp single with ⟨-, same⟩ | ⟨_, -, nothing⟩
      · exact absurd (List.cons.inj same).1 past
      · simp at nothing

end Notice

namespace Ledger

open Notice (begun life Lifetime lifeCons begunRunning begunOver memBegun)

theorem statusBegin (l : Ledger) (txn : TxnId) :
    l.begin.2.status? txn = if l.begin.1 = txn then some .running else l.status? txn :=
  statusMark ..

inductive Takes : Notice → Ledger → Ledger → Prop where
  | begin {l} : Takes (l.begin.1, .running) l l.begin.2
  | finish {l txn status} (runs : l.status? txn = some .running) (past : status ≠ .running) :
      Takes (txn, status) l (l.mark txn status)

inductive Noted : List Notice → Ledger → Prop where
  | new : Noted [] .empty
  | next {notice notices l l'} (before : Noted notices l) (takes : Takes notice l l') :
      Noted (notice :: notices) l'

namespace Noted

variable {notices : List Notice} {l : Ledger} {txn : TxnId}

theorem number (noted : Noted notices l) : l.nextTxn = .ofNat ((begun notices).length + 1) := by
  induction noted with
  | new => rfl
  | next before takes ih =>
    cases takes with
    | begin =>
      rw [begunRunning, List.length_cons, UInt64.ofNat_add, ← ih]
      rfl
    | finish runs past =>
      rw [begunOver past]
      exact ih

theorem numbered (noted : Noted notices l) :
    (begun notices).reverse = (List.range (begun notices).length).map fun n => .ofNat (n + 1) := by
  induction noted with
  | new => rfl
  | next before takes ih =>
    cases takes with
    | begin =>
      rw [begunRunning, List.reverse_cons, List.length_cons, List.range_succ, List.map_append, ih]
      exact congrArg (_ ++ [·]) before.number
    | finish runs past =>
      rw [begunOver past]
      exact ih

theorem stands (noted : Noted notices l) (txn : TxnId) :
    l.status? txn = (life txn notices).head? := by
  induction noted with
  | new => rfl
  | next before takes ih =>
    cases takes with
    | begin =>
      rw [lifeCons, statusBegin]
      split
      · rfl
      · exact ih
    | finish runs past =>
      rw [lifeCons, statusMark]
      split
      · rfl
      · exact ih

theorem unborn (noted : Noted notices l) (unbegun : txn ∉ begun notices) :
    life txn notices = [] := by
  induction noted with
  | new => rfl
  | next before takes ih =>
    cases takes with
    | begin =>
      rw [begunRunning, List.mem_cons, not_or] at unbegun
      rw [lifeCons, if_neg (Ne.symm unbegun.1)]
      exact ih unbegun.2
    | finish runs past =>
      rw [begunOver past] at unbegun
      have nothing := ih unbegun
      rw [lifeCons, if_neg, nothing]
      rintro rfl
      rw [before.stands, nothing] at runs
      cases runs

theorem fresh (noted : Noted notices l) (few : (begun notices).length + 1 < UInt64.size) :
    l.nextTxn ∉ begun notices := by
  rw [← List.mem_reverse, noted.numbered, noted.number, List.mem_map]
  rintro ⟨n, inside, same⟩
  rw [List.mem_range] at inside
  have equal := congrArg UInt64.toNat same
  rw [UInt64.toNat_ofNat_of_lt' (by omega), UInt64.toNat_ofNat_of_lt' (by omega)] at equal
  omega

theorem lifetime (noted : Noted notices l) (few : (begun notices).length < UInt64.size)
    (txn : TxnId) : Lifetime (life txn notices) := by
  induction noted with
  | new => exact .unborn
  | @next _ notices l _ before takes ih =>
    cases takes with
    | begin =>
      rw [begunRunning, List.length_cons] at few
      rw [lifeCons]
      split
      · rename_i same
        subst same
        have nothing : life l.begin.1 notices = [] := before.unborn (before.fresh few)
        rw [nothing]
        exact .running
      · exact ih (by omega)
    | finish runs past =>
      rw [begunOver past] at few
      rw [lifeCons]
      split
      · rename_i same
        subst same
        rw [before.stands] at runs
        rw [(ih few).head runs]
        exact .ended past
      · exact ih few

theorem ascends (noted : Noted notices l) (few : (begun notices).length < UInt64.size) :
    (begun notices).reverse.Pairwise (· < ·) := by
  rw [noted.numbered, List.pairwise_map]
  refine List.pairwise_lt_range.imp_of_mem fun {n m} early late before => ?_
  rw [List.mem_range] at early late
  rw [UInt64.lt_iff_toNat_lt, UInt64.toNat_ofNat_of_lt' (by omega),
    UInt64.toNat_ofNat_of_lt' (by omega)]
  omega

end Noted

theorem activeAscends (l : Ledger) : l.active.Pairwise (· < ·) := by
  have sorted : l.active.Pairwise fun a b => !decide (b < a) :=
    List.pairwise_mergeSort (fun a b c ab bc => by
      simp only [Bool.not_eq_true', decide_eq_false_iff_not, UInt64.not_lt] at ab bc ⊢
      exact UInt64.le_trans ab bc) (fun a b => by
      simp only [Bool.or_eq_true, Bool.not_eq_true', decide_eq_false_iff_not, UInt64.not_lt]
      exact UInt64.le_total a b) _
  refine (sorted.and l.activeNodup).imp fun {a b} ordered => ?_
  obtain ⟨upward, apart⟩ := ordered
  simp only [Bool.not_eq_true', decide_eq_false_iff_not, UInt64.not_lt] at upward
  exact UInt64.lt_of_le_of_ne upward apart

/- What notices say of the lives of transactions, and what the ledger says of them. -/
structure Lives (notices : List Notice) (l : Ledger) : Prop where
  numbered : (begun notices).reverse =
    (List.range (begun notices).length).map fun n => .ofNat (n + 1)
  ascends : (begun notices).reverse.Pairwise (· < ·)
  unborn : ∀ txn, txn ∉ begun notices ↔ life txn notices = []
  lifetime : ∀ txn, Lifetime (life txn notices)
  once : ∀ txn, (notices.filter fun notice => notice.1 = txn ∧ notice.2 ≠ .running).length ≤ 1
  stands : ∀ txn, l.status? txn = (life txn notices).head?
  active : l.active = (begun notices).reverse.filter fun txn => life txn notices = [.running]

theorem Noted.lives {notices : List Notice} {l : Ledger} (noted : Noted notices l)
    (few : (begun notices).length < UInt64.size) : Lives notices l where
  numbered := noted.numbered
  ascends := noted.ascends few
  unborn txn := ⟨noted.unborn, fun nothing there => by simp [memBegun, nothing] at there⟩
  lifetime := noted.lifetime few
  once txn := by
    have lived := noted.lifetime few txn
    have ends : (notices.filter fun notice => notice.1 = txn ∧ notice.2 ≠ .running).length =
        ((life txn notices).filter (· ≠ .running)).length := by
      simp [life, List.filter_map, List.filter_filter, Function.comp_def, Bool.and_comm]
    rw [ends]
    generalize life txn notices = statuses at lived
    cases lived with
    | unborn => exact Nat.zero_le 1
    | running => exact Nat.zero_le 1
    | ended past => simp [past]
  stands := noted.stands
  active := by
    refine l.activeAscends.eq_of_mem_iff ((noted.ascends few).filter _) fun txn => ?_
    rw [memActive, noted.stands, List.mem_filter, List.mem_reverse, memBegun, decide_eq_true_eq]
    constructor
    · intro runs
      have whole := (noted.lifetime few txn).head runs
      exact ⟨by simp [whole], whole⟩
    · rintro ⟨-, whole⟩
      rw [whole]
      rfl

end Ledger

namespace Engine

/- Whatever an engine and its pool may be asked for. -/
inductive Job where
  | operation (o : Operation)
  | call (c : PoolCall)

namespace Job

def work : Job → Activity Engine (Option Response)
  | .operation o => do return some (← o.work)
  | .call c => do
    c.work.within poolPart
    return none

def notice? : Job → Except Error (Option Response) → Option Notice
  | .operation (.request .begin), .ok (some (.answered (.began txn))) => some (txn, .running)
  | .operation (.request (.commit txn)), .ok _ => some (txn, .committed)
  | .operation (.request (.abort txn)), .ok _ => some (txn, .aborted)
  | _, _ => none

end Job

/- Anything may be asked for at any time and by anybody, also by those who wait. -/
def busy : Service Engine Job (Option Response) := ⟨fun _ => none, Job.work, fun _ _ => True⟩

def notices (h : History Job (Option Response)) : List Notice :=
  h.flatMap fun (job, answer) => (job.notice? answer).toList

theorem noticesCons (job : Job) (answer : Except Error (Option Response))
    (h : History Job (Option Response)) :
    notices ((job, answer) :: h) = (job.notice? answer).toList ++ notices h := rfl

variable {e e' : Engine} {α β : Type} {told : α → Option Notice}

/- The ledger takes notice of answers, and of nothing else. -/

def Unlisted (e e' : Engine) : Prop := e'.ledger = e.ledger

def Enters (notice? : Option Notice) (e e' : Engine) : Prop :=
  match notice? with
  | none => Unlisted e e'
  | some notice => Ledger.Takes notice e.ledger e'.ledger

def Reports (told : α → Option Notice) (work : Progress Engine α) (e : Engine) : Prop :=
  work.Meets Unlisted (fun _ _ => True) (fun e a e' => Enters (told a) e e') e

theorem Reports.answer {told : β → Option Notice} {answer : α → β} {work : Progress Engine α}
    (reports : Reports (fun a => told (answer a)) work e) :
    Reports told (work.andThen fun a e => .ended (.ok (answer a) e)) e :=
  Progress.Meets.andThen reports fun _ _ _ entered => entered

theorem Reports.instant {r : EStateM.Result Error Engine α}
    (h : Ends (fun a e' => Enters (told a) e e') (Unlisted e) r) : Reports told (.ended r) e :=
  Progress.meetsEnded h

theorem Serves.reports {who : Option TxnId} {work : Activity Engine α} (serves : Serves who work) :
    Reports (fun _ => none) (work e) e :=
  (serves e).mono (fun _ _ only => only.ledger) (fun _ _ _ => trivial)
    (fun _ _ _ only => only.ledger)

theorem withinReports (work : Activity Pool α) :
    Reports (fun _ => none) (work.within poolPart e) e :=
  (Progress.Meets.inPart (Progress.meetsAny (work (poolPart.get e)))).mono
    (fun _ _ stretch => (congrArg Engine.ledger stretch.2).trans rfl) (fun _ _ _ => trivial)
    (fun _ _ _ done => (congrArg Engine.ledger done.2).trans rfl)

theorem Only.reports {r : EStateM.Result Error Engine α}
    (h : Ends (fun _ e' => Only none e e') (Only none e) r) :
    Reports (fun _ => none) (.ended r) e :=
  .instant (h.mono (fun _ _ only => only.ledger) (fun _ only => only.ledger))

theorem finishReports {txn : TxnId} {work : Instant Pool Unit} (status : Status)
    {done lost : Pool → Prop} (h : Ends (fun _ q => done q) lost (work e.pool))
    (past : status ≠ .running) :
    Reports (fun _ => some (txn, status)) (.ended (finish txn work status e)) e := by
  refine .instant ((finishEnds h).mono (fun _ e' ended => ?_) (fun e' failed => ?_))
  · obtain ⟨runs, -, marked⟩ := ended
    change Ledger.Takes _ _ e'.ledger
    rw [marked]
    exact .finish runs past
  · obtain ⟨-, rfl⟩ | ⟨-, -, same⟩ := failed
    · rfl
    · exact same

theorem jobReports (job : Job) (e : Engine) :
    Reports (fun a => job.notice? (.ok a)) (job.work e) e := by
  cases job with
  | call c => exact (withinReports c.work).answer
  | operation o =>
    refine Reports.answer ?_
    cases o with
    | openTable name width => exact (Only.reports (openingOnly name width e)).answer
    | flush => exact (Only.reports (onPoolOnly Pool.flushAllKeeps e)).answer
    | request r =>
      refine Reports.answer ?_
      cases r with
      | begin => exact Ledger.Takes.begin
      | insert txn table values => exact (insertServes txn table values).reports.answer
      | delete txn rid => exact (deleteServes txn rid).reports.answer
      | scan who table => exact (scanServes who table).reports.answer
      | commit txn =>
        refine Reports.answer ?_
        exact finishReports .committed (Pool.commitLocks txn e.pool) nofun
      | abort txn =>
        refine Reports.answer ?_
        exact finishReports .aborted (Pool.abortLocks txn e.pool) nofun

theorem lawOfBusy : busy.Law (fun h e => Ledger.Noted (notices h) e.ledger)
    (fun _ => Unlisted) (fun _ _ _ => True)
    (fun job e a e' => Enters (job.notice? (.ok a)) e e') where
  works job _ _ := jobReports job _
  stops _ noted same := by
    rw [same]
    exact noted
  fails job cause noted same := by
    have silent : job.notice? (.error cause) = none := by
      cases job with
      | call c => rfl
      | operation o => cases o with
        | request r => cases r <;> rfl
        | _ => rfl
    rw [noticesCons, silent, same]
    exact noted
  ends job a noted entered := by
    cases told : job.notice? (.ok a) with
    | none =>
      rw [told] at entered
      rw [noticesCons, told, show _ = _ from entered]
      exact noted
    | some notice =>
      rw [told] at entered
      rw [noticesCons, told]
      exact noted.next entered
  idle _ _ := trivial
  join _ _ _ _ _ _ := trivial
  aside _ _ _ _ _ := trivial
  asideDone _ _ _ _ _ _ := trivial

/- What commits and aborts do, whatever state they find. -/

/- Transactions that do not run cannot be ended, and trying to changes nothing. An abort of
one that runs works; a commit works or leaves it running, with all its locks. -/
structure Endings (txn : TxnId) (e : Engine) : Prop where
  refused : ¬ e.Runs txn → ∃ cause, e.ledger.checkRunning txn = .error cause ∧
    commit txn e = .error (.invalid cause) e ∧ abort txn e = .error (.invalid cause) e
  aborts : e.Runs txn → ∃ e', abort txn e = .ok () e' ∧
    e'.ledger = e.ledger.mark txn .aborted ∧ e'.pool.locks.heldBy txn = []
  commits : e.Runs txn →
    Ends (fun _ e' => e'.ledger = e.ledger.mark txn .committed ∧ e'.pool.locks.heldBy txn = [])
      (fun e' => e'.ledger = e.ledger ∧ e'.pool.locks = e.pool.locks) (commit txn e)

theorem finishRefused {txn : TxnId} {cause : Misuse} (work : Instant Pool Unit) (status : Status)
    (refused : e.ledger.checkRunning txn = .error cause) :
    finish txn work status e = .error (.invalid cause) e := by
  change (demand Engine (e.ledger.checkRunning txn) >>= fun _ => _) e = _
  rw [refused]
  rfl

theorem endings (txn : TxnId) (e : Engine) : Endings txn e where
  refused still := by
    obtain ⟨cause, refused⟩ := Ledger.refused still
    exact ⟨cause, refused, finishRefused _ _ refused, finishRefused _ _ refused⟩
  aborts runs := by
    obtain ⟨e', done, ended⟩ := abortEnded runs
    exact ⟨e', done, ended.ledger, ended.none⟩
  commits runs := (finishEnds (Pool.commitLocks txn e.pool)).mono
    (fun _ _ ended => ⟨ended.2.2, ended.2.1.2⟩) (fun e' failed => by
      obtain ⟨stopped, -⟩ | ⟨-, kept, same⟩ := failed
      · exact absurd runs stopped
      · exact ⟨same, kept⟩)

variable {start : Engine} {h h' : History Job (Option Response)}
  {t t' : Traffic Engine Job (Option Response)}

/-- Transactions are numbered from 1 upwards, each is begun once, runs and comes to one end,
and the ledger says so at every moment: whatever is asked for in between, in whatever order
and on whatever volumes. -/
theorem transactionsLive (fresh : start.ledger = .empty) (run : busy.Run start h t)
    (few : (Notice.begun (notices h)).length < UInt64.size) :
    Ledger.Lives (notices h) t.state.ledger ∧ (∀ txn, Endings txn t.state) ∧
      ∀ h' t', Relation.ReflTransGen busy.Step (h, t) (h', t') →
        (Notice.begun (notices h')).length < UInt64.size → ∀ txn status, status ≠ .running →
          t.state.ledger.status? txn = some status → t'.state.ledger.status? txn = some status := by
  have initial : Ledger.Noted (notices []) start.ledger := fresh ▸ .new
  have orderly := lawOfBusy.run initial run
  refine ⟨orderly.holds.lives few, fun txn => endings txn t.state,
    fun h' t' steps few' txn status past stood => ?_⟩
  have later := (lawOfBusy.steps orderly steps).holds
  obtain ⟨more, rfl⟩ := Service.historyGrows steps
  have whole : Notice.life txn (notices (more ++ h)) =
      Notice.life txn (notices more) ++ Notice.life txn (notices h) := by
    simp [Notice.life, notices]
  rw [orderly.holds.stands] at stood
  rw [later.stands, (later.lifetime few' txn).final whole stood past]
  exact stood

/- A transaction whose commit cannot write its page runs on until it is aborted, and cannot be
committed after that. -/

def sampleFaulty : Engine :=
  sampleTable [0, 0, 0, 0, 0, 0, 0, 0] [⟨.write, none, 1, .shortRead⟩]

def sampleFailed : History Job (Option Response) × Traffic Engine Job (Option Response) :=
  busy.next (.operation (.request (.commit 1)))
    (busy.next (.operation (.request (.insert 1 1 [7])))
      (busy.next (.operation (.request .begin)) ([], ⟨sampleFaulty, []⟩)))

def sampleLived : History Job (Option Response) × Traffic Engine Job (Option Response) :=
  busy.next (.operation (.request (.commit 1))) (busy.next (.operation (.request .begin))
    (busy.next (.operation (.request (.abort 1))) (busy.next (.call (.peek ⟨1, 0⟩)) sampleFailed)))

theorem sampleLivedRun : busy.Run sampleFaulty sampleLived.1 sampleLived.2 := by
  have failed : busy.Run sampleFaulty sampleFailed.1 sampleFailed.2 :=
    .alone busy (.alone busy (.alone busy .start (.operation (.request .begin)) trivial rfl)
      (.operation (.request (.insert 1 1 [7]))) trivial rfl)
      (.operation (.request (.commit 1))) trivial rfl
  have looked : busy.Run sampleFaulty (busy.next (.call (.peek ⟨1, 0⟩)) sampleFailed).1
      (busy.next (.call (.peek ⟨1, 0⟩)) sampleFailed).2 :=
    .alone busy failed (.call (.peek ⟨1, 0⟩)) trivial rfl
  exact .alone busy (.alone busy (.alone busy looked (.operation (.request (.abort 1))) trivial rfl)
    (.operation (.request .begin)) trivial rfl) (.operation (.request (.commit 1))) trivial rfl

theorem sampleLives : busy.Run sampleFaulty sampleLived.1 sampleLived.2 ∧
    sampleFailed.2.state.ledger.status? 1 = some .running ∧
    notices sampleLived.1 = [(2, .running), (1, .aborted), (1, .running)] ∧
    Ledger.Lives (notices sampleLived.1) sampleLived.2.state.ledger ∧
    Endings 1 sampleLived.2.state ∧ Endings 2 sampleLived.2.state := by
  have told : notices sampleLived.1 = [(2, .running), (1, .aborted), (1, .running)] := rfl
  have few : (Notice.begun (notices sampleLived.1)).length < UInt64.size := by
    rw [told]
    decide
  obtain ⟨lives, ends, -⟩ := transactionsLive rfl sampleLivedRun few
  exact ⟨sampleLivedRun, rfl, told, lives, ends 1, ends 2⟩

end Engine
end PagedHeap
