import PagedHeap.Proofs.CalmScans
import PagedHeap.Proofs.EngineLaws
import PagedHeap.Proofs.ShellLaws

/-! What the commands of a shell leave of its pool. Calls of the volumes do not go wrong, so the
house rules of all that works with the cache are kept; and as long as nothing is committed or
written back, what the volumes hold lasts. -/
namespace PagedHeap

def Act.edits (who : Option TxnId) : Act → Prop
  | .fill .. | .clear .. => True
  | act => act.seeks who

theorem Act.seeksEdits {who : Option TxnId} {act : Act} (h : act.seeks who) : act.edits who := by
  cases act <;> first | exact h | trivial

theorem Act.editsCases {who : Option TxnId} {act : Act} (h : act.edits who) :
    (∃ txn rid data, act = .fill txn rid data) ∨ (∃ txn rid, act = .clear txn rid) ∨
      act.seeks who := by
  cases act <;> first | exact .inr (.inr h) | simp

theorem Act.editsOrderly {who : Option TxnId} {act : Act} (h : act.edits who) : act.orderly := by
  cases act <;> first | exact h.elim | trivial

namespace Pool

variable {p q r : Pool} {txn : TxnId} {lasting lasting' : Prop}

/- No call goes wrong but for want of a place in the cache. -/
structure Sturdy (p : Pool) : Prop extends Orderly p where
  smooth : p.Smooth
  unlatched : p.latched = []

/- Tables stand under their own numbers, and what is in the cache is what the volumes hold. -/
structure Intact (p : Pool) : Prop where
  named : ∀ table file, p.tables.get? table = some file → file.table = table
  sized : ∀ table file, p.tables.get? table = some file →
    p.storage.pageSize file.volume = file.layout.pageSize
  whole : p.Room → ∀ (page : PageId) file image, p.tables.get? page.table = some file →
    p.image? page = some image → image.length = file.layout.pageSize
  bounded : p.resident.size ≤ p.capacity
  keeps : ∀ page frame, p.resident.get? page = some frame → p.Keeps page frame
  clean : ∀ page, p.CleanAt page
  faithful : p.Faithful
  unlatched : p.latched = []

theorem Intact.sturdy (intact : p.Intact) (free : p.locks = .empty) (apart : p.Separate)
    (slots : ∀ table file, p.tables.get? table = some file → file.layout.slots ≤ UInt32.size)
    (spared : ∀ point, p.Spared point) : p.Sturdy where
  named := intact.named
  sized := intact.sized
  apart := apart
  bounded := intact.bounded
  keeps := intact.keeps
  faithful _ := intact.faithful
  writes := spared .write
  fills := spared .fill
  slots := slots
  coherent := by
    rw [free]
    exact LockTable.emptyCoherent
  owned page frame txn present marked := by
    rw [intact.clean page frame present] at marked
    cases marked
  smooth := ⟨spared, intact.whole⟩
  unlatched := intact.unlatched

theorem Opened.intact (opened : p.Opened)
    (whole : p.Room → ∀ (page : PageId) file image, p.tables.get? page.table = some file →
      p.image? page = some image → image.length = file.layout.pageSize)
    (unlatched : p.latched = []) : p.Intact where
  named := opened.housed.named
  sized := opened.housed.sized
  whole := whole
  bounded := opened.housed.bounded
  keeps := opened.housed.keeps
  clean page frame present := by
    rw [opened.resident] at present
    cases present
  faithful := opened.orderly.faithful opened.apart
  unlatched := unlatched

/- What work leaves of a sturdy pool, and whether what the volumes hold lasts. -/
structure StaysSturdy (lasting : Prop) (p q : Pool) : Prop where
  sturdy : q.Sturdy
  grew : Grew p q
  lasts : lasting → q.Room → q.durable = p.durable

namespace StaysSturdy

theorem refl (sturdy : p.Sturdy) : StaysSturdy lasting p p := ⟨sturdy, .refl p, fun _ _ => rfl⟩

theorem trans (first : StaysSturdy lasting p q) (second : StaysSturdy lasting q r) :
    StaysSturdy lasting p r :=
  ⟨second.sturdy, first.grew.trans second.grew, fun holds room =>
    (second.lasts holds room).trans (first.lasts holds (room.before second.grew))⟩

theorem mono (stays : StaysSturdy lasting p q) (weaker : lasting' → lasting) :
    StaysSturdy lasting' p q :=
  ⟨stays.sturdy, stays.grew, fun holds => stays.lasts (weaker holds)⟩

end StaysSturdy

namespace Sturdy

theorem moves {kind : Act → Prop} (sturdy : p.Sturdy) (allowed : ∀ act, kind act → act.orderly)
    (moves : Moves kind p q) : q.Sturdy where
  toOrderly := sturdy.toOrderly.moves allowed moves
  smooth := sturdy.smooth.moves sturdy.toHoused sturdy.apart allowed moves
  unlatched := moves.unlatched.trans sturdy.unlatched

theorem edited (sturdy : p.Sturdy) {who : Option TxnId} (moves : Moves (Act.edits who) p q) :
    StaysSturdy lasting p q := by
  refine ⟨sturdy.moves (fun _ => Act.editsOrderly) moves, moves.grew, fun _ => ?_⟩
  have whole := moves.within (fun p q => p.Orderly → q.Orderly ∧ Grew p q ∧
      (q.Room → q.durable = p.durable))
    (fun p same => ⟨same, .refl p, fun _ => rfl⟩)
    (fun _ _ _ first second same => by
      obtain ⟨there, grew, kept⟩ := first same
      obtain ⟨here, further, later⟩ := second there
      exact ⟨here, grew.trans further, fun room =>
        (later room).trans (kept (room.before further))⟩)
    (fun act p q allowed move same => by
      refine ⟨same.move (Act.editsOrderly allowed) move, move.grew, fun room => ?_⟩
      rcases Act.editsCases allowed with ⟨txn, rid, data, rfl⟩ | ⟨txn, rid, rfl⟩ | seeks
      · exact (same.filled move).durable
      · exact (same.cleared move).durable
      · exact (same.lookQuiet seeks move room).durable)
  exact (whole sturdy.toOrderly).2.2

theorem given (sturdy : p.Sturdy) (orderly : q.Orderly) (move : Move (.giveAll txn) p q) :
    q.Sturdy := by
  have unlatched := move.unlatched
  cases move with
  | giveAll => exact ⟨orderly, sturdy.smooth.relocked _, unlatched.trans sturdy.unlatched⟩

theorem commitSturdy (sturdy : p.Sturdy) (txn : TxnId) :
    Ends (fun _ q => StaysSturdy False p q) (fun _ => False) (commit txn p) := by
  refine ((Pool.commitEnds sturdy.toHoused txn).both (sturdy.toOrderly.commitEnds txn)).mono
    (fun _ q ended => ?_) (fun _ failed => failed.2)
  obtain ⟨⟨m, saved, _, given⟩, settled⟩ := ended
  exact ⟨(sturdy.moves (fun _ => Act.savesOrderly) saved).given settled.orderly given,
    saved.grew.trans given.grew, False.elim⟩

theorem abortSturdy (sturdy : p.Sturdy) (txn : TxnId) :
    Ends (fun _ q => StaysSturdy True p q) (fun _ => False) (abort txn p) := by
  refine ((Pool.abortEnds txn p).both (sturdy.toOrderly.abortEnds txn)).mono
    (fun _ q ended => ?_) (fun _ failed => failed.2)
  obtain ⟨⟨m, forgot, given⟩, settled⟩ := ended
  refine ⟨(sturdy.moves (fun _ => Act.forgetsOrderly) forgot.moves).given settled.orderly given,
    settled.grew, fun _ room => funext fun rid => ?_⟩
  rw [settled.durable room]
  split <;> rfl

theorem flushSturdy (sturdy : p.Sturdy) :
    Ends (fun _ q => StaysSturdy False p q) (fun _ => False) (flushAll p) :=
  (flushAllEnds sturdy.toHoused).mono
    (fun _ _ saved => ⟨sturdy.moves (fun _ => Act.savesOrderly) saved.1, saved.1.grew, False.elim⟩)
    (fun _ failed => failed.2 sturdy.writes)

end Sturdy
end Pool

namespace Engine

open Pool (Moves Reaches Sturdy)

variable {α : Type} {e : Engine} {txn : TxnId} {lasting : Prop}

def EndsSturdy (lasting : Prop) (e : Engine) : EStateM.Result Error Engine α → Prop :=
  Ends (fun _ e' => Pool.StaysSturdy lasting e.pool e'.pool)
    (fun e' => Pool.StaysSturdy lasting e.pool e'.pool)

theorem withinSturdy {work : Activity Pool α} {done : Pool → α → Pool → Prop} {who : Option TxnId}
    (sturdy : e.pool.Sturdy) (h : Reaches (Act.seeks who) who done (work e.pool) e.pool)
    (ends : ∀ m a q, done m a q → Moves (Act.edits who) m q) :
    EndsSturdy lasting e ((work.within poolPart).settled e) := by
  rw [Activity.settledWithin]
  refine Ends.inPart ((h.settled sturdy.toHoused).mono (fun a q ended => ?_) (fun q moves => ?_))
  · obtain ⟨m, moves, last⟩ := ended
    exact sturdy.edited ((moves.mono fun _ => Act.seeksEdits).trans (ends m a q last))
  · exact sturdy.edited (moves.mono fun _ => Act.seeksEdits)

theorem insertSturdy (sturdy : e.pool.Sturdy) (txn : TxnId) (table : TableId)
    (values : List Int32) :
    EndsSturdy lasting e ((insert txn table values).settled e) :=
  withinSturdy sturdy ((Pool.insertReaches sturdy.toHoused table _).widen fun _ => And.left)
    fun _ rid _ filled => .one (show Act.edits (some txn) (.fill txn rid _) from trivial) filled.1

theorem deleteSturdy (sturdy : e.pool.Sturdy) (txn : TxnId) (rid : Rid) :
    EndsSturdy lasting e ((delete txn rid).settled e) :=
  withinSturdy sturdy (Pool.deleteReaches sturdy.toHoused (some rid)) fun _ _ _ cleared => by
    obtain ⟨place, _, move⟩ := cleared
    exact .one (show Act.edits (some txn) (.clear txn place) from trivial) move

theorem scanSturdy (sturdy : e.pool.Sturdy) (who : Option TxnId) (table : TableId) :
    EndsSturdy lasting e ((scan who table).settled e) := by
  unfold scan
  rw [Activity.settledBind, Activity.settledLift]
  refine (tableEnds e table).andThen (fun file e' found => ?_) (fun _ same => ?_)
  swap
  · subst same
    exact .refl sturdy
  obtain ⟨rfl, _⟩ := found
  refine withinSturdy sturdy ((Pool.walkReaches sturdy.toHoused UInt32.size 0).widen
    fun _ own => Act.readsSeeks own.1) fun m a q done => ?_
  obtain ⟨rfl, _⟩ := done
  exact .refl

theorem finishSturdy {work : Instant Pool Unit} {status : Status} (sturdy : e.pool.Sturdy)
    (h : Ends (fun _ q => Pool.StaysSturdy lasting e.pool q) (fun _ => False) (work e.pool)) :
    EndsSturdy lasting e (finish txn work status e) :=
  (finishEnds h).mono (fun _ _ ended => ended.2.1) (fun _ failed => by
    rcases failed with ⟨_, rfl⟩ | ⟨_, none, _⟩
    · exact .refl sturdy
    · exact none.elim)

end Engine

namespace Shell

open Engine (Ended)
open Pool (Sturdy Calm)

variable {α β : Type} {s t u : Shell} {txn : TxnId} {lasting lasting' : Prop}

structure StaysSturdy (lasting : Prop) (s t : Shell) : Prop where
  table : t.table = s.table
  fields : t.fields = s.fields
  pool : Pool.StaysSturdy lasting s.engine.pool t.engine.pool

theorem StaysSturdy.refl (sturdy : s.engine.pool.Sturdy) : StaysSturdy lasting s s :=
  ⟨rfl, rfl, .refl sturdy⟩

theorem StaysSturdy.trans (first : StaysSturdy lasting s t) (second : StaysSturdy lasting t u) :
    StaysSturdy lasting s u :=
  ⟨second.table.trans first.table, second.fields.trans first.fields, first.pool.trans second.pool⟩

theorem StaysSturdy.mono (stays : StaysSturdy lasting s t) (weaker : lasting' → lasting) :
    StaysSturdy lasting' s t := ⟨stays.table, stays.fields, stays.pool.mono weaker⟩

def EndsSturdy (lasting : Prop) (s : Shell) : EStateM.Result ShellError Shell α → Prop :=
  Yields (fun _ t => StaysSturdy lasting s t) (fun _ t => StaysSturdy lasting s t)

namespace EndsSturdy

theorem bind {work : Work α} {next : α → Work β} (first : EndsSturdy lasting s (work s))
    (rest : ∀ a t, StaysSturdy lasting s t → EndsSturdy lasting t (next a t)) :
    EndsSturdy lasting s ((work >>= next) s) :=
  Yields.andThen first (fun a t stays => (rest a t stays).mono (fun _ _ later => stays.trans later)
    (fun _ _ later => stays.trans later)) (fun _ _ stays => stays)

theorem mono {r : EStateM.Result ShellError Shell α} (h : EndsSturdy lasting s r)
    (weaker : lasting' → lasting) : EndsSturdy lasting' s r :=
  Yields.mono h (fun _ _ stays => stays.mono weaker) (fun _ _ stays => stays.mono weaker)

theorem engine {work : Instant Engine α} (h : s.engine.EndsSturdy lasting (work s.engine)) :
    EndsSturdy lasting s (onEngine work s) :=
  Yields.ofEngine (Ends.mono h (fun _ _ stays => ⟨rfl, rfl, stays⟩)
    (fun _ stays _ => ⟨rfl, rfl, stays⟩))

theorem attempt {work : Activity Engine α}
    (h : s.engine.EndsSturdy lasting (work.settled s.engine)) :
    EndsSturdy lasting s (onEngine work.attempt.settled s) :=
  engine ((Ends.attempt h).mono (fun answer _ stays => by cases answer <;> exact stays)
    (fun _ none => none.elim))

theorem giveUp (sturdy : s.engine.pool.Sturdy) (txn : TxnId) (cause : Error) :
    EndsSturdy lasting s (giveUp txn cause s : EStateM.Result ShellError Shell α) := by
  have aborted : EndsSturdy True s (onEngine (Engine.abort txn) s) :=
    engine (Engine.finishSturdy sturdy (sturdy.abortSturdy txn))
  exact bind (aborted.mono fun _ => trivial) fun _ t stays =>
    bind (show EndsSturdy lasting t (setCurrent none t) from ⟨rfl, rfl, .refl stays.pool.sturdy⟩)
      fun _ u later => (StaysSturdy.refl later.pool.sturdy : StaysSturdy lasting u u)

theorem inOpen {work : Activity Engine α}
    (h : s.engine.EndsSturdy lasting (work.settled s.engine)) :
    EndsSturdy lasting s (inOpen txn work s) :=
  (attempt h).bind fun answer t stays => by
    cases answer with
    | ok a => exact (StaysSturdy.refl stays.pool.sturdy : StaysSturdy lasting t t)
    | error cause =>
      change EndsSturdy lasting t ((if cause.isAborted then Shell.giveUp txn cause
        else throw (.engine cause)) t)
      split
      · exact giveUp stays.pool.sturdy txn cause
      · exact (StaysSturdy.refl stays.pool.sturdy : StaysSturdy lasting t t)

theorem inOwn {work : Activity Engine α} (h : s.engine.EndsSturdy False (work.settled s.engine)) :
    EndsSturdy False s (inOwn txn work s) :=
  (attempt h).bind fun answer t stays => by
    have sturdy := stays.pool.sturdy
    cases answer with
    | ok a =>
      exact bind (engine (Engine.finishSturdy sturdy (sturdy.commitSturdy txn)))
        fun _ u later => (StaysSturdy.refl later.pool.sturdy : StaysSturdy False u u)
    | error cause => exact giveUp sturdy txn cause

theorem inTransaction {work : TxnId → Activity Engine α} (sturdy : s.engine.pool.Sturdy)
    (h : ∀ txn lasting (e : Engine), e.pool.Sturdy → e.EndsSturdy lasting ((work txn).settled e)) :
    EndsSturdy (s.current ≠ none) s (inTransaction work s) := by
  unfold Shell.inTransaction
  rw [getThen]
  cases opened : s.current with
  | some txn => exact inOpen (h txn _ s.engine sturdy)
  | none =>
    have begun : EndsSturdy (none ≠ (none : Option TxnId)) s (onEngine Engine.begin s) :=
      engine (Pool.StaysSturdy.refl sturdy)
    exact begun.bind fun txn t stays => (inOwn (h txn False t.engine stays.pool.sturdy)).mono
      fun away => away rfl

theorem answer {work : Work α} (h : EndsSturdy lasting s (work s)) (answer : α → β) :
    EndsSturdy lasting s ((work >>= fun a => pure (answer a)) s) :=
  h.bind fun _ _ stays => StaysSturdy.refl stays.pool.sturdy

theorem taken {work : TxnId → Work α} (sturdy : s.engine.pool.Sturdy)
    (h : ∀ txn t, t.engine.pool.Sturdy → EndsSturdy lasting t (work txn t)) :
    EndsSturdy lasting s ((takeCurrent >>= work) s) := by
  have took : EndsSturdy lasting s (takeCurrent s) := by
    refine (takeYields s).mono (fun _ t taken => ?_) (fun _ t same => ?_)
    · obtain ⟨_, rfl⟩ := taken
      exact ⟨rfl, rfl, .refl sturdy⟩
    · subst same
      exact .refl sturdy
  exact took.bind fun txn t stays => h txn t stays.pool.sturdy

end EndsSturdy

theorem performSturdy (sturdy : s.engine.pool.Sturdy) (command : Command) :
    EndsSturdy (s.current ≠ none ∧ command ≠ .flush ∧ command ≠ .commit) s (perform command s) := by
  have still {lasting : Prop} : StaysSturdy lasting s s := .refl sturdy
  cases command with
  | begin =>
    change EndsSturdy _ s (Shell.begin s)
    unfold Shell.begin
    rw [getThen]
    cases s.current with
    | some txn => exact still
    | none => exact ⟨rfl, rfl, .refl sturdy⟩
  | commit =>
    exact EndsSturdy.mono (EndsSturdy.taken sturdy fun txn t sturdy =>
      (EndsSturdy.engine (Engine.finishSturdy sturdy (sturdy.commitSturdy txn))).answer _)
        fun h => h.2.2 rfl
  | abort =>
    exact EndsSturdy.mono (EndsSturdy.taken sturdy fun txn t sturdy =>
      (EndsSturdy.engine (Engine.finishSturdy sturdy (sturdy.abortSturdy txn))).answer _)
        fun _ => trivial
  | insert values =>
    exact ((EndsSturdy.inTransaction sturdy fun txn _ e sturdy =>
      Engine.insertSturdy sturdy txn s.table values).mono fun h => h.1).answer _
  | delete page slot =>
    exact ((EndsSturdy.inTransaction sturdy fun txn _ e sturdy =>
      Engine.deleteSturdy sturdy txn ⟨⟨s.table, page⟩, slot⟩).mono fun h => h.1).answer _
  | scan =>
    exact ((EndsSturdy.inTransaction sturdy fun txn _ e sturdy =>
      Engine.scanSturdy sturdy (some txn) s.table).mono fun h => h.1).answer _
  | flush =>
    have flushed : s.engine.EndsSturdy False (Engine.flush s.engine) :=
      Ends.inPart (sturdy.flushSturdy.mono (fun _ _ stays => stays) (fun _ none => none.elim))
    exact ((EndsSturdy.engine flushed).mono fun h => h.2.1 rfl).answer _
  | stats | help | exit => exact still

end Shell
end PagedHeap
