import PagedHeap.Proofs.LockHolders
import PagedHeap.Proofs.Marks

/-! Shutting down. While records are worked on for running transactions only, every page that
is changed is owned by a transaction that runs. So once those that run have been aborted
nothing is left to be written, whatever has become of earlier commits. -/
namespace PagedHeap

namespace Pool

variable {p : Pool}

theorem flushNothing (clean : ∀ page, p.CleanAt page) (pages : List PageId) :
    pages.forM flushPage p = .ok () p := by
  have each (page : PageId) : flushPage page p = .ok () p := by
    cases present : p.resident.get? page with
    | none => exact flushAbsent present
    | some frame =>
      refine flushClean present ?_
      rw [Page.isDirty, clean page frame present]
      rfl
  induction pages with
  | nil => rfl
  | cons page rest ih =>
    change (flushPage page >>= fun _ => rest.forM flushPage) p = _
    simp only [bind, EStateM.bind, each]
    exact ih

theorem flushAllNothing (clean : ∀ page, p.CleanAt page) :
    flushAll p = .ok () {p with draws := p.draws.tail} :=
  flushNothing (p := {p with draws := p.draws.tail}) clean (arranged _ p.resident.keys)

end Pool

namespace LockTable

structure Bare (t : LockTable) : Prop where
  held : ∀ txn, t.heldBy txn = []
  sharers : ∀ page, t.sharers.of page = []
  owners : ∀ page, t.owners.of page = []

theorem Coherent.bare {t : LockTable} (coherent : t.Coherent) (held : ∀ txn, t.heldBy txn = []) :
    t.Bare := by
  have agrees := coherent.agrees
  refine ⟨held, fun page => ?_, fun page => ?_⟩
  · refine List.eq_nil_iff_forall_not_mem.mpr fun txn there => ?_
    have counted := agrees.sharers txn page
    rw [held txn, if_neg List.not_mem_nil] at counted
    exact absurd there (List.count_eq_zero.mp counted)
  · refine (agrees.noOtherOwners page).resolve_right fun owned => ?_
    obtain ⟨txn, owner⟩ := owned
    have locked := (agrees.owners txn page).mp owner
    rw [held txn] at locked
    cases locked

end LockTable

namespace Engine

open Pool (ActsFor Tended Tamed Tames Meantime ActsOnlyFor)

variable {α β : Type} {who : Option TxnId} {txn : TxnId} {e e' : Engine}

/- Marks stay with the locks, whatever an engine is asked for. -/

structure TendedFor (who : Option TxnId) (e e' : Engine) : Prop where
  tended : e'.pool.Tended
  acts : ActsFor who e.pool e'.pool

theorem TendedFor.tamed (tended : e.pool.Tended) (tamed : Tamed e.pool e'.pool) :
    TendedFor who e e' := ⟨tended.tamed tamed, .ofLocks tamed.locks⟩

def StaysTendedFor (who : Option TxnId) (work : Progress Engine α) (e : Engine) : Prop :=
  work.Meets (TendedFor who) (fun e e' => Meantime who e.pool e'.pool)
    (fun e _ e' => TendedFor who e e') e

namespace StaysTendedFor

theorem answer {work : Progress Engine α} (h : StaysTendedFor who work e) (answer : α → β) :
    StaysTendedFor who (work.andThen fun a e => .ended (.ok (answer a) e)) e :=
  Progress.Meets.andThen h fun _ _ _ steered => steered

theorem within {work : Activity Pool α} {fact : α → Pool → Prop} (minds : ActsOnlyFor who work)
    (tends : Pool.StaysTended who fact (work e.pool) e.pool) :
    StaysTendedFor who (work.within poolPart e) e := by
  have acts : (work e.pool).Meets _ (Meantime who) _ e.pool :=
    (minds e.pool).mono (fun _ _ same => same) (fun _ _ _ => trivial) (fun _ _ _ same => same)
  exact (Progress.Meets.inPart (acts.both tends)).mono (fun _ _ both => ⟨both.1.2, both.1.1⟩)
    (fun _ _ same => same) (fun _ _ _ both => ⟨both.1.2.1, both.1.1⟩)

theorem instant {r : EStateM.Result Error Engine α} (tended : e.pool.Tended)
    (h : Ends (fun _ e' => TendedFor who e e') (fun e' => Tamed e.pool e'.pool) r) :
    StaysTendedFor who (.ended r) e :=
  Progress.meetsEnded (h.mono (fun _ _ steered => steered) fun _ lost => .tamed tended lost)

end StaysTendedFor

theorem onPoolTames {work : Instant Pool α} (tames : Tames work) (tended : e.pool.Tended) :
    Ends (fun _ e' => Tamed e.pool e'.pool) (fun e' => Tamed e.pool e'.pool) (onPool work e) :=
  Ends.inPart (tames e.pool tended)

theorem openingTames (tended : e.pool.Tended) (name : String) (width : Nat) :
    Ends (fun _ e' => Tamed e.pool e'.pool) (fun e' => Tamed e.pool e'.pool)
      (opening name width e) := by
  have registers (file : HeapFile) : Tames (Pool.register file) :=
    .bind .gets fun _ => .bind (.asks _) fun _ => fun _ _ => Tamed.same rfl rfl
  rw [openingPlain]
  refine (onPoolTames (.storage _) tended).andThen (fun file a made => ?_) (fun _ made => made)
  exact (onPoolTames (registers file) (tended.tamed made)).andThen
    (fun _ b kept => made.trans kept) (fun _ kept => made.trans kept)

theorem finishTended {work : Instant Pool Unit} {status : Status} (tended : e.pool.Tended)
    (h : Ends (fun _ q => q.Tended ∧ ActsFor (some txn) e.pool q) (Tamed e.pool) (work e.pool)) :
    StaysTendedFor (some txn) (.ended (finish txn work status e)) e := by
  refine .instant tended ((finishEnds h).mono (fun _ _ ended => ⟨ended.2.1.1, ended.2.1.2⟩)
    fun e' failed => ?_)
  rcases failed with ⟨_, rfl⟩ | ⟨_, lost, _⟩
  · exact .refl _
  · exact lost

theorem requestTended (tended : e.pool.Tended) (r : Request) :
    StaysTendedFor r.txn? (r.work e) e := by
  cases r with
  | begin => exact TendedFor.tamed tended (.refl e.pool)
  | insert maker table values =>
    exact (StaysTendedFor.within (Pool.insertActsFor maker table _)
      (Pool.insertTended tended table _)).answer _
  | delete maker rid =>
    exact (StaysTendedFor.within (Pool.deleteActsFor maker _) (Pool.deleteTended tended _)).answer _
  | scan who table =>
    have scanned : StaysTendedFor who (scan who table e) e :=
      tableMeets table (.tamed tended (.refl e.pool)) fun file _ =>
        StaysTendedFor.within (Pool.scanActsFor who file) (Pool.scanTended who file tended)
    exact scanned.answer _
  | commit maker => exact (finishTended tended (Pool.commitTended tended maker)).answer _
  | abort maker =>
    refine (finishTended tended ((Pool.abortTended tended maker).mono (fun _ _ ended => ?_)
      fun _ none => none.elim)).answer _
    exact ⟨ended.1, ended.2.1⟩

theorem operationTended (tended : e.pool.Tended) (o : Operation) :
    StaysTendedFor o.txn? (o.work e) e := by
  have instant {α : Type} {work : Instant Engine α}
      (h : Ends (fun _ e' => Tamed e.pool e'.pool) (fun e' => Tamed e.pool e'.pool) (work e)) :
      StaysTendedFor none (.ended (work e)) e :=
    .instant tended (h.mono (fun _ _ tamed => .tamed tended tamed) fun _ lost => lost)
  cases o with
  | openTable name width => exact (instant (openingTames tended name width)).answer _
  | request r => exact (requestTended tended r).answer _
  | flush => exact (instant (onPoolTames Pool.flushAllTames tended)).answer _

theorem lawOfMarks (admits : Operation → Engine → Prop) :
    (serving admits).Law (fun _ e => e.pool.Tended) (fun o => TendedFor o.txn?)
      (fun o e e' => Meantime o.txn? e.pool e'.pool) (fun o e _ e' => TendedFor o.txn? e e') where
  works o tended _ := operationTended tended o
  stops _ _ steered := steered.tended
  fails _ _ _ steered := steered.tended
  ends _ _ _ steered := steered.tended
  idle _ tended := ⟨tended, fun _ _ => rfl⟩
  join _ _ _ _ first second :=
    ⟨second.tended, fun txn mine => (second.locks txn mine).trans (first.locks txn mine)⟩
  aside _ _ _ free steered :=
    ⟨steered.tended, fun txn mine => steered.acts txn fun theirs => free txn theirs mine⟩
  asideDone _ _ _ _ free steered :=
    ⟨steered.tended, fun txn mine => steered.acts txn fun theirs => free txn theirs mine⟩

/- Aborting one after the other. -/

structure Aborted (txns : List TxnId) (e e' : Engine) : Prop where
  tended : e'.pool.Tended
  volumes : e'.pool.storage = e.pool.storage
  answerable : (∀ txn, Answerable txn e) → ∀ txn, Answerable txn e'
  statuses : ∀ txn, e'.ledger.status? txn =
    if txn ∈ txns then some .aborted else e.ledger.status? txn

theorem abortRunning (tended : e.pool.Tended) (runs : e.Runs txn) :
    ∃ e', abort txn e = .ok () e' ∧ Aborted [txn] e e' := by
  obtain ⟨e', done, ended⟩ := abortEnded runs
  have worked : Ends _ _ (abort txn e) := finishEnds (Pool.abortTended tended txn)
  rw [done] at worked
  obtain ⟨_, ⟨there, _, volumes⟩, _⟩ := worked
  refine ⟨e', done, there, volumes, fun answerable other =>
    (ended.careful (o := .request (.abort txn)) rfl).answerable (answerable other), fun other => ?_⟩
  rw [ended.ledger, Ledger.statusMark]
  by_cases own : txn = other
  · simp [own]
  · have away : ¬ other = txn := fun same => own same.symm
    simp [own, away]

theorem abortAll (tended : e.pool.Tended) {txns : List TxnId} (distinct : txns.Nodup)
    (runs : ∀ txn ∈ txns, e.Runs txn) :
    ∃ e', txns.forM abort e = .ok () e' ∧ Aborted txns e e' := by
  induction txns generalizing e with
  | nil => exact ⟨e, rfl, tended, rfl, fun answerable => answerable, fun _ => rfl⟩
  | cons txn rest ih =>
    obtain ⟨fresh, distinct⟩ := List.nodup_cons.mp distinct
    obtain ⟨m, done, first⟩ := abortRunning tended (runs txn List.mem_cons_self)
    have others (other : TxnId) (there : other ∈ rest) : m.Runs other := by
      have apart : other ∉ [txn] := fun same => fresh (List.mem_singleton.mp same ▸ there)
      exact (first.statuses other).trans ((if_neg apart).trans
        (runs other (List.mem_cons_of_mem _ there)))
    obtain ⟨e', all, later⟩ := ih first.tended distinct others
    refine ⟨e', ?_, later.tended, later.volumes.trans first.volumes,
      fun answerable => later.answerable (first.answerable answerable), fun other => ?_⟩
    · change (abort txn >>= fun _ => rest.forM abort) e = _
      simp only [bind, EStateM.bind, done]
      exact all
    · rw [later.statuses, first.statuses]
      by_cases own : other = txn
      · simp [own]
      · simp [own]

/- The whole engine. -/

/- Nothing runs, nothing is locked or left to write, and no volume has been called. -/
structure Down (e e' : Engine) : Prop where
  volumes : e'.pool.storage = e.pool.storage
  active : e'.ledger.active = []
  unlocked : e'.pool.locks.Bare
  clean : ∀ page frame, e'.pool.resident.get? page = some frame → frame.page.isDirty = false
  statuses : ∀ txn, e'.ledger.status? txn =
    if e.ledger.status? txn = some .running then some .aborted else e.ledger.status? txn

theorem shutdownDown (tended : e.pool.Tended) (answerable : ∀ txn, Answerable txn e) :
    ∃ e', shutdown e = .ok () e' ∧ Down e e' := by
  obtain ⟨e', done, aborted⟩ := abortAll tended e.ledger.activeNodup fun _ => Ledger.memActive.mp
  have statuses (txn : TxnId) : e'.ledger.status? txn =
      if e.ledger.status? txn = some .running then some .aborted else e.ledger.status? txn := by
    rw [aborted.statuses]
    simp only [Ledger.memActive]
  have stopped (txn : TxnId) : ¬ e'.Runs txn := by
    unfold Runs
    rw [statuses]
    split
    · nofun
    · assumption
  have held (txn : TxnId) : e'.pool.locks.heldBy txn = [] :=
    Classical.byContradiction fun held => stopped txn (aborted.answerable answerable txn held)
  -- a mark would stand for a lock, and there are none
  have unmarked (page : PageId) : e'.pool.CleanAt page := fun frame present => by
    cases mark : frame.page.dirtiedBy with
    | none => rfl
    | some txn =>
      have owns := aborted.tended.owned page frame txn present mark
      simp [LockTable.access?, held] at owns
  refine ⟨{e' with pool := {e'.pool with draws := e'.pool.draws.tail}}, ?_, aborted.volumes, ?_,
    aborted.tended.coherent.bare held,
    fun page frame present => by simp [Page.isDirty, unmarked page frame present], statuses⟩
  · change (e.ledger.active.forM abort >>= fun _ => flush) e = _
    simp only [bind, EStateM.bind, done]
    change poolPart.outcome e' (Pool.flushAll e'.pool) = _
    rw [Pool.flushAllNothing unmarked]
    rfl
  · exact List.eq_nil_iff_forall_not_mem.mpr fun txn there =>
      stopped txn (Ledger.memActive.mp there)

/- Records are worked on for transactions that run; anything else may be asked for. -/
def proper : Service Engine Operation Response :=
  serving fun o e => ∀ txn, o.user? = some txn → e.Runs txn

variable {start : Engine} {h : History Operation Response} {t : Traffic Engine Operation Response}

/-- Whatever has been done and whatever has failed, as long as records were worked on for
running transactions: an engine shuts down without a single call to a volume, and then no
transaction runs, no page is locked and none is left to be written. -/
theorem shutsDown (resident : start.pool.resident = .empty) (free : start.pool.locks = .empty)
    (run : proper.Run start h t) : ∃ e', shutdown t.state = .ok () e' ∧ Down t.state e' := by
  have fresh : start.pool.Tended := by
    refine ⟨free ▸ LockTable.emptyCoherent, fun page frame present => ?_,
      fun page frame txn present => ?_⟩ <;>
    · rw [resident] at present
      cases present
  have none (txn : TxnId) : Answerable txn start := fun held => by
    rw [free] at held
    exact absurd rfl held
  exact shutdownDown ((lawOfMarks _).run fresh run).holds fun txn =>
    (((lawOfMinding txn).fewer fun _ _ admitted => admitted txn).run (none txn) run).holds

/- A transaction fills two pages of a table whose volume fails every write, so its commit fails
and it goes on running. -/

def sampleStuck : History Operation Response × Traffic Engine Operation Response :=
  proper.next (.request (.commit 1)) (proper.next (.request (.insert 1 1 [9])) (proper.next
    (.request (.insert 1 1 [7])) (proper.next (.request .begin)
      ([], ⟨sampleTable [0, 0, 0, 0, 0, 0, 0, 0] [⟨.write, none, 100, .shortRead⟩], []⟩))))

theorem sampleShutsDown :
    proper.Run (sampleTable [0, 0, 0, 0, 0, 0, 0, 0] [⟨.write, none, 100, .shortRead⟩])
      sampleStuck.1 sampleStuck.2 ∧
    sampleStuck.1.head? = some (.request (.commit 1), .error (.storage .shortRead)) ∧
    sampleStuck.2.state.pool.locks.ownedBy 1 = [⟨1, 0⟩, ⟨1, 1⟩] ∧
    ∃ e', shutdown sampleStuck.2.state = .ok () e' ∧ Down sampleStuck.2.state e' := by
  have run : proper.Run (sampleTable [0, 0, 0, 0, 0, 0, 0, 0] [⟨.write, none, 100, .shortRead⟩])
      sampleStuck.1 sampleStuck.2 := by
    refine .alone proper (.alone proper (.alone proper (.alone proper .start (.request .begin)
      nofun rfl) (.request (.insert 1 1 [7])) ?_ rfl) (.request (.insert 1 1 [9])) ?_ rfl)
      (.request (.commit 1)) nofun rfl
    all_goals
      rintro _ ⟨⟩
      rfl
  exact ⟨run, rfl, rfl, shutsDown rfl rfl run⟩

end Engine
end PagedHeap
