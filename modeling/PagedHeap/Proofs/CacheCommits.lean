import PagedHeap.Proofs.FailedCommits

/-! Commits through the calls of the cache alone. A commit writes the pages that its transaction
owns, so it writes all that the transaction has changed, as long as the transaction gives back
no page that it has changed. -/
namespace PagedHeap

inductive CacheCall where
  | get (txn : TxnId) (page : PageId) (access : Access)
  | insert (txn : TxnId) (table : TableId) (data : Bytes)
  | delete (txn : TxnId) (rid : Option Rid)
  | release (txn : TxnId) (page : PageId)
  | holds (txn : TxnId) (page : PageId)
  | commit (txn : TxnId)
  | abort (txn : TxnId)

inductive CacheAnswer where
  | got (frame : Frame)
  | placed (rid : Rid)
  | told (holds : Bool)
  | done

abbrev CacheHistory := History CacheCall CacheAnswer

namespace CacheCall

def txn : CacheCall → TxnId
  | .get txn .. | .insert txn .. | .delete txn _ | .release txn _ | .holds txn _ | .commit txn
  | .abort txn => txn

def work : CacheCall → Activity Pool CacheAnswer
  | .get txn page access => do return .got (← Pool.getPage txn page access)
  | .insert txn table data => do return .placed (← Pool.insert txn table data)
  | .delete txn rid => do
    Pool.delete txn rid
    return .done
  | .release txn page => do
    Pool.release txn page
    return .done
  | .holds txn page => do return .told (← Pool.holds txn page)
  | .commit txn => do
    Pool.commit txn
    return .done
  | .abort txn => do
    Pool.abort txn
    return .done

end CacheCall

/- What a history says about one transaction. -/

namespace CacheHistory

/- The pages that it has changed since it last came to an end. -/
def changed (txn : TxnId) : CacheHistory → List PageId
  | [] => []
  | (.insert maker _ _, .ok (.placed rid)) :: before
  | (.delete maker (some rid), .ok _) :: before =>
      if maker = txn then rid.page :: changed txn before else changed txn before
  | (.commit maker, .ok _) :: before | (.abort maker, .ok _) :: before =>
      if maker = txn then [] else changed txn before
  | _ :: before => changed txn before

/- It has given back no page that it had changed. -/
def Retains (txn : TxnId) : CacheHistory → Prop
  | [] => True
  | (.release maker page, _) :: before =>
      (maker = txn → page ∉ changed txn before) ∧ Retains txn before
  | _ :: before => Retains txn before

end CacheHistory

def Act.passes (txn : TxnId) (pages : List PageId) : Act → Prop
  | .forget page | .save page => page ∉ pages
  | .fill maker rid _ | .clear maker rid => maker ≠ txn ∧ rid.page ∉ pages
  | .giveBack maker page => maker = txn → page ∉ pages
  | .giveAll maker => maker ≠ txn
  | _ => True

namespace Pool

variable {p q m : Pool} {act : Act} {txn maker : TxnId} {pages : List PageId} {page : PageId}

structure Secured (txn : TxnId) (pages : List PageId) (p : Pool) : Prop where
  owned : ∀ page ∈ pages, p.locks.access? txn page = some .exclusive
  marked : ∀ page ∈ pages, ∃ frame, p.resident.get? page = some frame ∧
    frame.page.dirtiedBy = some txn
  all : ∀ page frame, p.resident.get? page = some frame → frame.page.dirtiedBy = some txn →
    page ∈ pages

namespace Secured

theorem stays (secured : p.Secured txn pages) (owned : ∀ page ∈ pages,
      q.locks.access? txn page = some .exclusive)
    (kept : ∀ page ∈ pages, q.resident.get? page = p.resident.get? page)
    (fresh : ∀ page frame, q.resident.get? page = some frame → frame.page.dirtiedBy = some txn →
      p.resident.get? page = some frame) : q.Secured txn pages where
  owned := owned
  marked page there := by
    rw [kept page there]
    exact secured.marked page there
  all page frame present dirty := secured.all page frame (fresh page frame present dirty) dirty

theorem relocked (secured : p.Secured txn pages) {locks : LockTable} (owned : ∀ page ∈ pages,
    locks.access? txn page = some .exclusive) : Secured txn pages {p with locks} :=
  secured.stays owned (fun _ _ => rfl) fun _ _ present _ => present

theorem put (secured : p.Secured txn pages) {storage : Storage} {nextFrame : FrameId}
    {frame : Frame} (other : page ∉ pages) (unmarked : frame.page.dirtiedBy ≠ some txn) :
    Secured txn pages {p with storage, nextFrame, resident := p.resident.insert page frame} := by
  refine secured.stays secured.owned (fun own there => ?_) fun own held present dirty => ?_
  · have away : ¬ page = own := fun same => other (same ▸ there)
    rw [KeyMap.getInsert, if_neg away]
  · rw [KeyMap.getInsert] at present
    split at present
    · cases present
      exact absurd dirty unmarked
    · exact present

theorem drop (secured : p.Secured txn pages) (other : page ∉ pages) :
    (p.drop page).Secured txn pages := by
  refine secured.stays (fun own there => ?_) (fun own there => ?_) fun own held present _ => ?_
  · rw [dropLocks]
    exact secured.owned own there
  · have away : ¬ page = own := fun same => other (same ▸ there)
    rw [residentDrop, if_neg away]
  · rw [residentDrop] at present
    split at present
    · cases present
    · exact present

theorem unmarked (secured : p.Secured txn pages) {frame : Frame}
    (present : p.resident.get? page = some frame) (clean : frame.page.dirtiedBy = none) :
    page ∉ pages := fun there => by
  obtain ⟨held, same, dirty⟩ := secured.marked page there
  cases present.symm.trans same
  rw [clean] at dirty
  cases dirty

theorem move (secured : p.Secured txn pages) (move : Move act p q)
    (passes : act.passes txn pages) : q.Secured txn pages := by
  have keeps (allowed : act.orderly) (page : PageId) (there : page ∈ pages) :
      q.locks.access? txn page = some .exclusive :=
    move.keepsOwner allowed (secured.owned page there)
  cases move with
  | aside | extend | register =>
    exact secured.stays secured.owned (fun _ _ => rfl) fun _ _ present _ => present
  | @load _ page file copy absent space found copied =>
    have unmarked : copy.dirtiedBy ≠ some txn := by
      rw [copied.clean]
      nofun
    refine secured.put (fun there => ?_) unmarked
    obtain ⟨held, present, _⟩ := secured.marked page there
    cases absent.symm.trans present
  | evict present clean => exact secured.drop (secured.unmarked present clean)
  | forget => exact secured.drop passes
  | save => exact secured.put passes nofun
  | take | unprobe => exact secured.relocked (keeps trivial)
  | @giveBack _ maker page =>
    refine secured.relocked fun own there => (LockTable.accessRelease ..).trans ?_
    have away : ¬ (maker = txn ∧ page = own) := fun same => passes same.1 (same.2 ▸ there)
    rw [if_neg away]
    exact secured.owned own there
  | giveAll =>
    refine secured.relocked fun own there => (LockTable.accessReleaseAll ..).trans ?_
    rw [if_neg passes]
    exact secured.owned own there
  | fill | clear => exact secured.put passes.2 fun same => passes.1 (Option.some.inj same)

theorem moves {kind : Act → Prop} (secured : p.Secured txn pages)
    (passes : ∀ act, kind act → act.passes txn pages) (moves : Moves kind p q) :
    q.Secured txn pages :=
  moves.within (fun p q => p.Secured txn pages → q.Secured txn pages) (fun _ same => same)
    (fun _ _ _ first second same => second (first same))
    (fun act _ _ of move same => same.move move (passes act of)) secured

theorem sought {who : Option TxnId} (secured : p.Secured txn pages)
    (moves : Moves (Act.seeks who) p q) : q.Secured txn pages :=
  secured.moves (fun act seeks => by cases act <;> first | exact seeks.elim | trivial) moves

theorem grow (secured : p.Secured txn pages) {frame : Frame}
    (owns : p.locks.access? txn page = some .exclusive)
    (mark : frame.page.dirtiedBy = some txn) :
    Secured txn (page :: pages) {p with resident := p.resident.insert page frame} := by
  refine ⟨fun other there => ?_, fun other there => ?_, fun other held present dirty => ?_⟩
  · rcases List.mem_cons.mp there with rfl | there
    · exact owns
    · exact secured.owned other there
  · by_cases own : page = other
    · exact ⟨frame, (KeyMap.getInsert ..).trans (if_pos own), mark⟩
    · obtain ⟨held, present, dirty⟩ :=
        secured.marked other ((List.mem_cons.mp there).resolve_left fun same => own same.symm)
      exact ⟨held, (KeyMap.getInsert ..).trans ((if_neg own).trans present), dirty⟩
  · rw [KeyMap.getInsert] at present
    split at present
    · rename_i same
      exact same ▸ List.mem_cons_self
    · exact List.mem_cons_of_mem _ (secured.all other held present dirty)

theorem none (secured : p.Secured txn pages) (coherent : p.locks.Coherent)
    (fresh : ∀ page frame, q.resident.get? page = some frame → frame.page.dirtiedBy = some txn →
      p.resident.get? page = some frame)
    (clean : ∀ page ∈ p.locks.ownedBy txn, q.CleanAt page) : q.Secured txn [] where
  owned := nofun
  marked := nofun
  all page frame present dirty := by
    have there := secured.all page frame (fresh page frame present dirty) dirty
    have mine := coherent.memOwnedBy.mpr (secured.owned page there)
    rw [clean page mine frame present] at dirty
    cases dirty

theorem elsewhere (secured : p.Secured txn pages) (coherent : p.locks.Coherent)
    (owns : p.locks.access? maker page = some .exclusive) (apart : maker ≠ txn) :
    page ∉ pages := fun there => by
  have none := coherent.alone (secured.owned page there) apart
  rw [owns] at none
  cases none

end Secured

theorem Moves.unsaved (moves : Moves (Act.saves pages) p q) (page : PageId) (frame : Frame)
    (present : q.resident.get? page = some frame) (dirty : frame.page.dirtiedBy = some txn) :
    p.resident.get? page = some frame := by
  refine moves.within (fun p q => q.resident.get? page = some frame →
      p.resident.get? page = some frame) (fun _ same => same)
    (fun _ _ _ first second same => first (second same)) (fun act p q allowed move there => ?_)
    present
  cases move with
  | aside => exact there
  | save =>
    rw [KeyMap.getInsert] at there
    split at there
    · cases there
      cases dirty
    · exact there
  | _ => exact allowed.elim

namespace Secured

theorem edited (secured : p.Secured txn pages) (coherent : p.locks.Coherent) {frame : Frame}
    (owns : p.locks.access? maker page = some .exclusive)
    (mark : frame.page.dirtiedBy = some maker) :
    Secured txn (if maker = txn then page :: pages else pages)
      {p with resident := p.resident.insert page frame} := by
  split
  · rename_i own
    subst own
    exact secured.grow owns mark
  · rename_i apart
    have away := secured.elsewhere coherent owns apart
    exact secured.put away fun same => apart (Option.some.inj (mark.symm.trans same))

theorem committed (secured : p.Secured txn pages) (coherent : p.locks.Coherent)
    (moves : Moves (Act.saves (p.locks.ownedBy maker)) p m)
    (clean : ∀ page ∈ p.locks.ownedBy maker, m.CleanAt page) (given : Move (.giveAll maker) m q) :
    q.Secured txn (if maker = txn then [] else pages) := by
  split
  · rename_i own
    subst own
    cases given with
    | giveAll => exact secured.none coherent (fun page frame => moves.unsaved page frame) clean
  · rename_i apart
    refine (secured.moves (fun act saves => ?_) moves).move given apart
    cases act with
    | save page => exact secured.elsewhere coherent (coherent.memOwnedBy.mp saves) apart
    | aside => trivial
    | _ => exact saves.elim

theorem aborted (secured : p.Secured txn pages) (coherent : p.locks.Coherent)
    (forgot : Forgot (p.locks.ownedBy maker) p m) (given : Move (.giveAll maker) m q) :
    q.Secured txn (if maker = txn then [] else pages) := by
  split
  · rename_i own
    subst own
    have left (page : PageId) (frame : Frame) (present : m.resident.get? page = some frame) :
        page ∉ p.locks.ownedBy maker ∧ p.resident.get? page = some frame := by
      rw [forgot.resident] at present
      split at present
      · cases present
      · exact ⟨by assumption, present⟩
    cases given with
    | giveAll =>
      exact secured.none coherent (fun page frame present _ => (left page frame present).2)
        fun page mine frame present => absurd mine (left page frame present).1
  · rename_i apart
    refine (secured.moves (fun act forgets => ?_) forgot.moves).move given apart
    cases act with
    | forget page => exact secured.elsewhere coherent (coherent.memOwnedBy.mp forgets) apart
    | _ => exact forgets.elim

end Secured

/- What a pool is like throughout. -/

structure Fit (p : Pool) : Prop extends Housed p where
  apart : p.Separate
  coherent : p.locks.Coherent
  writes : p.Spared .write

namespace Fit

theorem moves {kind : Act → Prop} (fit : p.Fit) (allowed : ∀ act, kind act → act.orderly)
    (moves : Moves kind p q) : q.Fit := by
  have kept := moves.within (fun p q => q.tables = p.tables ∧ (p.locks.Coherent →
      q.locks.Coherent)) (fun _ => ⟨rfl, fun same => same⟩)
    (fun _ _ _ first second => ⟨second.1.trans first.1, fun same => second.2 (first.2 same)⟩)
    fun act _ _ of move => ⟨move.sameTables (allowed act of), fun coherent =>
      move.coherent coherent⟩
  exact ⟨fit.toHoused.moves moves,
    fit.apart.moves (fun act of => Act.orderlyOld (allowed act of)) moves, kept.2 fit.coherent,
    fun table file found =>
      moves.grew.storage.spares _ _ (fit.writes table file (kept.1 ▸ found))⟩

theorem relocked (fit : p.Fit) {locks : LockTable} (coherent : locks.Coherent) :
    Fit {p with locks} :=
  ⟨fit.toHoused.locks locks, fit.apart.carry rfl (.refl _), coherent, fit.writes⟩

theorem giveAll (fit : p.Fit) (move : Move (.giveAll txn) p q) : q.Fit := by
  cases move with
  | giveAll => exact fit.relocked (fit.coherent.perform (.releaseAll txn))

end Fit

/- What the calls do. -/

inductive MovesBehind : CacheCall → CacheAnswer → Pool → Pool → Prop
  | got {p q : Pool} {txn page access frame} (moves : Moves (Act.seeks (some txn)) p q) :
      MovesBehind (.get txn page access) (.got frame) p q
  | placed {p m q : Pool} {txn table data rid} (moves : Moves (Act.seeks (some txn)) p m)
      (filled : Move (.fill txn rid data) m q) :
      MovesBehind (.insert txn table data) (.placed rid) p q
  | cleared {p m q : Pool} {txn rid} (moves : Moves (Act.seeks (some txn)) p m)
      (cleared : Move (.clear txn rid) m q) : MovesBehind (.delete txn (some rid)) .done p q
  | released {p q : Pool} {txn page} (given : Move (.giveBack txn page) p q) :
      MovesBehind (.release txn page) .done p q
  | told {p : Pool} {txn page yes} : MovesBehind (.holds txn page) (.told yes) p p
  | committed {p m q : Pool} {txn} (moves : Moves (Act.saves (p.locks.ownedBy txn)) p m)
      (clean : ∀ page ∈ p.locks.ownedBy txn, m.CleanAt page) (given : Move (.giveAll txn) m q) :
      MovesBehind (.commit txn) .done p q
  | aborted {p m q : Pool} {txn} (forgot : Forgot (p.locks.ownedBy txn) p m)
      (given : Move (.giveAll txn) m q) : MovesBehind (.abort txn) .done p q

def cache : Service Pool CacheCall CacheAnswer := ⟨(some ·.txn), CacheCall.work, fun _ _ => True⟩

theorem callMoves (fit : p.Fit) (call : CacheCall) :
    (call.work p).Meets (Moves (Act.seeks (some call.txn))) (Interlude (some call.txn))
      (fun p a q => MovesBehind call a p q) p := by
  have told {α β : Type} {who : Option TxnId} {done : Pool → α → Pool → Prop}
      {made : Pool → β → Pool → Prop} {work : Progress Pool α} {answer : α → β}
      (reaches : Reaches (Act.seeks who) who done work p)
      (tells : ∀ p m a q, Moves (Act.seeks who) p m → done m a q → made p (answer a) q) :
      (work.andThen fun a q => .ended (.ok (answer a) q)).Meets (Moves (Act.seeks who))
        (Interlude who) made p :=
    Progress.Meets.andThen reaches fun s a q ended => by
      obtain ⟨m, moves, last⟩ := ended
      exact tells s m a q moves last
  have ended {who : Option TxnId} {work : Instant Pool Unit}
      {made : Pool → CacheAnswer → Pool → Prop}
      (h : Ends (fun _ q => made p .done q) (fun _ => False) (work p)) :
      ((Progress.ended (work p)).andThen fun _ q => .ended (.ok CacheAnswer.done q)).Meets
        (Moves (Act.seeks who)) (Interlude who) made p := by
    obtain ⟨_, q, done, last⟩ := h.sure
    rw [done]
    exact last
  cases call with
  | get txn page access =>
    refine told
      ((getPageReaches fit.toHoused txn page access).widen fun _ own => Act.readsSeeks own.1)
      fun p m frame q moves got => .got (got.1 ▸ moves)
  | insert txn table data =>
    exact told ((insertReaches fit.toHoused table data).widen fun _ => And.left)
      fun p m rid q moves filled => .placed moves filled.1
  | delete txn rid =>
    refine told (deleteReaches fit.toHoused rid) fun p m _ q moves cleared => ?_
    obtain ⟨place, rfl, cleared⟩ := cleared
    exact .cleared moves cleared
  | release txn page => exact MovesBehind.released .giveBack
  | holds txn page => exact MovesBehind.told
  | commit txn =>
    refine ended ((commitEnds fit.toHoused txn).mono (fun _ q ended => ?_)
      fun _ lost => lost.2 fit.writes)
    obtain ⟨m, moves, clean, given⟩ := ended
    exact .committed moves clean given
  | abort txn =>
    refine ended ((abortEnds txn p).mono (fun _ q ended => ?_) fun _ none => none)
    obtain ⟨m, forgot, given⟩ := ended
    exact .aborted forgot given

namespace MovesBehind

variable {call : CacheCall} {a : CacheAnswer}

theorem fit (made : MovesBehind call a p q) (fit : p.Fit) : q.Fit := by
  have sought {p q : Pool} {who : Option TxnId} (fit : p.Fit) (moves : Moves (Act.seeks who) p q) :
      q.Fit := fit.moves (fun _ => Act.seeksOrderly) moves
  have one {p q : Pool} {act : Act} (fit : p.Fit) (move : Move act p q) (allowed : act.orderly) :
      q.Fit := by
    have moves : Moves (act = ·) p q := .one rfl move
    exact fit.moves (fun _ same => by cases same; exact allowed) moves
  cases made with
  | got moves => exact sought fit moves
  | placed moves filled => exact one (sought fit moves) filled trivial
  | cleared moves cleared => exact one (sought fit moves) cleared trivial
  | released given =>
    cases given with
    | giveBack => exact fit.relocked (fit.coherent.perform (.release _ _))
  | told => exact fit
  | committed moves _ given => exact (fit.moves (fun _ => Act.savesOrderly) moves).giveAll given
  | aborted forgot given =>
    exact (fit.moves (fun _ => Act.forgetsOrderly) forgot.moves).giveAll given

theorem own (made : MovesBehind call a p q) : Moves (Act.byOwn (some call.txn)) p q := by
  have sought {p q : Pool} {who : Option TxnId} (moves : Moves (Act.seeks who) p q) :
      Moves (Act.byOwn who) p q := moves.mono fun _ => Act.seeksOwn
  cases made with
  | got moves => exact sought moves
  | @placed _ _ _ txn _ data rid moves filled =>
    exact (sought moves).trans (.one (show Act.byOwn _ (.fill txn rid data) from trivial) filled)
  | @cleared _ _ _ txn rid moves cleared =>
    exact (sought moves).trans (.one (show Act.byOwn _ (.clear txn rid) from trivial) cleared)
  | @released _ _ txn page given =>
    exact .one (show Act.byOwn (some txn) (.giveBack txn page) from rfl) given
  | told => exact .refl
  | @committed _ _ _ txn moves _ given =>
    exact (moves.mono fun _ => Act.savesOwn).trans
      (.one (show Act.byOwn (some txn) (.giveAll txn) from rfl) given)
  | @aborted _ _ _ txn forgot given =>
    exact (forgot.moves.mono fun _ => Act.forgetsOwn).trans
      (.one (show Act.byOwn (some txn) (.giveAll txn) from rfl) given)

theorem secured (made : MovesBehind call a p q) (fit : p.Fit) {h : CacheHistory}
    (retains : CacheHistory.Retains txn ((call, .ok a) :: h))
    (secured : CacheHistory.Retains txn h → p.Secured txn (h.changed txn)) :
    q.Secured txn (CacheHistory.changed txn ((call, .ok a) :: h)) := by
  cases made with
  | got moves => exact (secured retains).sought moves
  | @placed _ m _ maker _ data rid moves filled =>
    have before := (secured retains).sought moves
    have there := fit.moves (fun _ => Act.seeksOrderly) moves
    cases filled with
    | fill owns => exact before.edited there.coherent owns rfl
  | @cleared _ m _ maker rid moves cleared =>
    have before := (secured retains).sought moves
    have there := fit.moves (fun _ => Act.seeksOrderly) moves
    cases cleared with
    | clear owns => exact before.edited there.coherent owns rfl
  | released given => exact (secured retains.2).move given retains.1
  | told => exact secured retains
  | committed moves clean given =>
    exact (secured retains).committed fit.coherent moves clean given
  | aborted forgot given => exact (secured retains).aborted fit.coherent forgot given

end MovesBehind

structure Keeping (txn : TxnId) (h : CacheHistory) (p : Pool) : Prop where
  fit : p.Fit
  secured : CacheHistory.Retains txn h → p.Secured txn (h.changed txn)

theorem Keeping.sought {h : CacheHistory} {who : Option TxnId} (keeping : Keeping txn h p)
    (moves : Moves (Act.seeks who) p q) : Keeping txn h q where
  fit := keeping.fit.moves (fun _ => Act.seeksOrderly) moves
  secured retains := (keeping.secured retains).sought moves

theorem Keeping.failed {h : CacheHistory} (keeping : Keeping txn h p) (call : CacheCall)
    (cause : Error) : Keeping txn ((call, .error cause) :: h) p where
  fit := keeping.fit
  secured retains := by
    have same : CacheHistory.changed txn ((call, .error cause) :: h) = h.changed txn := by
      cases call with
      | delete maker rid => cases rid <;> rfl
      | _ => rfl
    have before : CacheHistory.Retains txn h := by
      cases call with
      | release maker page => exact retains.2
      | _ => exact retains
    rw [same]
    exact keeping.secured before

theorem lawOfCommits (txn : TxnId) : cache.Law (Keeping txn)
    (fun call => Moves (Act.seeks (some call.txn))) (fun call => Interlude (some call.txn))
    (fun call p a q => MovesBehind call a p q) where
  works call keeping _ := callMoves keeping.fit call
  stops _ keeping moves := keeping.sought moves
  fails call cause keeping moves := (keeping.sought moves).failed call cause
  ends _ _ keeping made := ⟨made.fit keeping.fit, fun retains =>
    made.secured keeping.fit retains keeping.secured⟩
  idle _ keeping := .refl keeping.fit.toHoused
  join _ _ _ _ first second := first.trans second
  aside _ _ keeping free moves :=
    (moves.mono fun _ => Act.seeksOwn).interlude keeping.fit.toHoused free
  asideDone _ _ _ keeping free made := made.own.interlude keeping.fit.toHoused free

variable {start : Pool} {h : CacheHistory} {t : Traffic Pool CacheCall CacheAnswer}

theorem Unused.fit (unused : p.Unused) (writes : p.Spared .write) : p.Fit :=
  ⟨unused.toHoused, unused.apart, unused.guarded.coherent, writes⟩

theorem commitWrites (housed : p.Housed) (apart : p.Separate) (txn : TxnId) :
    Ends (fun _ q => ∃ m, Wrote (p.locks.ownedBy txn) p m ∧ Move (.giveAll txn) m q)
      (fun _ => True) (commit txn p) :=
  (flushParts housed apart (p.locks.ownedBy txn)).andThen (fun _ m wrote => ⟨m, wrote, .giveAll⟩)
    (fun _ _ => trivial)

/-- Whatever calls have been made: if a transaction has given back no page that it had changed,
its commit succeeds, leaves none of its marks in the cache, and the volumes hold every page
that it has changed as it is seen. -/
theorem commitSecures (fresh : start.Fresh) (apart : start.Separate) (writes : start.Spared .write)
    (run : cache.Run start h t) (retains : h.Retains txn) :
    ∃ q, commit txn t.state = .ok () q ∧
      (∀ page frame, q.resident.get? page = some frame → frame.page.dirtiedBy ≠ some txn) ∧
      ∀ page ∈ h.changed txn, ∃ image, t.state.view? page = some image ∧
        q.view? page = some image ∧ q.image? page = some image := by
  have unused := fresh.unused apart
  have initial : Keeping txn [] start := by
    refine ⟨unused.fit writes, fun _ => ⟨nofun, nofun, fun page frame present => ?_⟩⟩
    rw [unused.resident] at present
    cases present
  obtain ⟨fit, secured⟩ := ((lawOfCommits txn).run initial run).holds
  obtain ⟨_, q, done, m, moves, clean, given⟩ := ((commitEnds fit.toHoused txn).mono
    (fun _ _ ended => ended) fun _ lost => lost.2 fit.writes).sure
  have made : MovesBehind (.commit txn) .done t.state q := .committed moves clean given
  have unmarked := made.secured fit retains secured
  simp only [CacheHistory.changed, if_true] at unmarked
  have wrote := commitWrites fit.toHoused fit.apart txn
  rw [done] at wrote
  obtain ⟨m, wrote, given⟩ := wrote
  have secured := secured retains
  refine ⟨q, done, fun page frame present dirty =>
    List.not_mem_nil (unmarked.all page frame present dirty), fun page there => ?_⟩
  obtain ⟨frame, present, dirty⟩ := secured.marked page there
  have own := fit.coherent.memOwnedBy.mpr (secured.owned page there)
  have mark : t.state.marked page = true := by
    rw [markedPresent present, Page.isDirty, dirty]
    rfl
  have landed := wrote.landed page
  rw [if_pos ⟨own, mark⟩, viewResident present] at landed
  have seen := (wrote.views page).trans (viewResident present)
  cases given with
  | giveAll => exact ⟨frame.page.image, viewResident present, seen, landed⟩

/- Two calls that leave nothing behind once they are committed, and a page that is given back
between its change and the commit. -/

def samplePool : Pool := Engine.sampleStart.pool

def sampleFilled : CacheHistory × Traffic Pool CacheCall CacheAnswer :=
  cache.next (.insert 1 1 [7, 0, 0, 0]) ([], ⟨samplePool, []⟩)

theorem sampleSecured : cache.Run samplePool sampleFilled.1 sampleFilled.2 ∧
    sampleFilled.1.changed 1 = [⟨1, 0⟩] ∧
    ∃ q, commit 1 sampleFilled.2.state = .ok () q ∧
      (∀ page frame, q.resident.get? page = some frame → frame.page.dirtiedBy ≠ some 1) ∧
      ∀ page ∈ sampleFilled.1.changed 1, ∃ image,
        sampleFilled.2.state.view? page = some image ∧ q.view? page = some image ∧
          q.image? page = some image := by
  have run : cache.Run samplePool sampleFilled.1 sampleFilled.2 :=
    .alone cache .start (.insert 1 1 [7, 0, 0, 0]) trivial rfl
  have unused : samplePool.Unused :=
    ⟨Engine.sampleOpened.housed, Engine.sampleOpened.apart, rfl, rfl⟩
  exact ⟨run, rfl, commitSecures unused.fresh unused.apart Engine.sampleOpened.writes run trivial⟩

def sampleReleased : CacheHistory × Traffic Pool CacheCall CacheAnswer :=
  cache.next (.commit 1) (cache.next (.release 1 ⟨1, 0⟩) sampleFilled)

theorem releasedStaysMarked : cache.Run samplePool sampleReleased.1 sampleReleased.2 ∧
    (∃ before, sampleReleased.1 = (.commit 1, .ok .done) :: before ∧
      CacheHistory.changed 1 before = [⟨1, 0⟩]) ∧
    (∃ frame, sampleReleased.2.state.resident.get? ⟨1, 0⟩ = some frame ∧
      frame.page.dirtiedBy = some 1 ∧ frame.page.image = [1, 7, 0, 0, 0, 0, 0, 0]) ∧
    sampleReleased.2.state.image? ⟨1, 0⟩ = some [0, 0, 0, 0, 0, 0, 0, 0] := by
  have run : cache.Run samplePool sampleReleased.1 sampleReleased.2 :=
    .alone cache (.alone cache (.alone cache .start (.insert 1 1 [7, 0, 0, 0]) trivial rfl)
      (.release 1 ⟨1, 0⟩) trivial rfl) (.commit 1) trivial rfl
  exact ⟨run, ⟨_, rfl, rfl⟩, ⟨_, rfl, rfl, rfl⟩, rfl⟩

end Pool
end PagedHeap
