import PagedHeap.Proofs.Openings

/-! Commits that fail. Pages are written one by one, and a page that has been written is no
longer changed in the cache, so the abort that follows forgets it but takes nothing back: the
pages before the one that failed keep what the transaction did to them. -/
namespace PagedHeap

namespace Pool

open Storage (Observed)

variable {p q r : Pool} {page : PageId} {pages more : List PageId}

def marked (p : Pool) (page : PageId) : Bool := (p.resident.get? page).any (·.page.isDirty)

theorem markedPresent {frame : Frame} (present : p.resident.get? page = some frame) :
    p.marked page = frame.page.isDirty := by
  rw [marked, present]
  rfl

def Landed (pages : List PageId) (p q : Pool) : Prop :=
  ∀ page, q.image? page =
    if page ∈ pages ∧ p.marked page = true then p.view? page else p.image? page

structure Wrote (pages : List PageId) (p q : Pool) : Prop where
  housed : q.Housed
  apart : q.Separate
  locks : q.locks = p.locks
  landed : Landed pages p q
  views : ∀ page, q.view? page = p.view? page
  marked : ∀ page, q.marked page = if page ∈ pages then false else p.marked page

namespace Wrote

theorem unmarked (housed : p.Housed) (apart : p.Separate) (clean : p.marked page = false) :
    Wrote [page] p p := by
  have same (other : PageId) (own : other = page) : p.marked other = false := own ▸ clean
  refine ⟨housed, apart, rfl, fun other => ?_, fun _ => rfl, fun other => ?_⟩ <;>
    by_cases own : other = page
  · simp [own, clean]
  · simp [own]
  · simp [own, clean]
  · simp [own]

theorem seen (housed : p.Housed) (apart : p.Separate) {storage : Storage}
    (seen : p.storage.Observed storage) : Wrote [] p {p with storage} := by
  have image (page : PageId) : image? {p with storage} page = p.image? page := imageSeen seen page
  have same : ∀ file, Act.aside ≠ .register file := nofun
  refine ⟨housed.move (.aside seen), apart.move same (.aside seen), rfl, fun page => ?_,
    fun page => ?_, fun _ => rfl⟩
  · exact image page
  · simp only [view?, image]

theorem trans (first : Wrote pages p q) (second : Wrote more q r) : Wrote (pages ++ more) p r := by
  refine ⟨second.housed, second.apart, second.locks.trans first.locks, fun page => ?_,
    fun page => (second.views page).trans (first.views page), fun page => ?_⟩
  · rw [second.landed, first.landed, first.marked, first.views]
    by_cases early : page ∈ pages <;> by_cases late : page ∈ more <;>
      cases p.marked page <;> simp [early, late]
  · rw [second.marked, first.marked]
    by_cases early : page ∈ pages <;> by_cases late : page ∈ more <;> simp [early, late]

end Wrote

theorem Move.wrote (housed : p.Housed) (apart : p.Separate) {frame : Frame}
    (move : Move (.save page) p q)
    (present : p.resident.get? page = some frame) (dirty : frame.page.isDirty = true)
    (resident : q.resident = p.resident.insert page {frame with page := frame.page.markClean}) :
    Wrote [page] p q := by
  have there := housed.move move
  have allowed : (Act.save page).orderly := trivial
  have still := apart.move (Act.orderlyOld allowed) move
  have mark : p.marked page = true := (markedPresent present).trans dirty
  have held (other : PageId) : q.resident.get? other =
      if page = other then some {frame with page := frame.page.markClean}
      else p.resident.get? other := by
    rw [resident, KeyMap.getInsert]
  have image (other : PageId) : q.image? other =
      if page = other then some frame.page.image else p.image? other := by
    cases move with
    | save here found stored =>
      cases present.symm.trans here
      exact imageSaved apart found stored other
  refine ⟨there, still, ?_, fun other => ?_, fun other => ?_, fun other => ?_⟩
  · cases move with
    | save => rfl
  -- what has landed, what is seen, and what is still marked
  · rw [image]
    by_cases own : page = other
    · subst own
      simp [mark, viewResident present]
    · have away : ¬ other = page := fun same => own same.symm
      simp [own, away]
  · by_cases own : page = other
    · subst own
      rw [viewResident present, viewResident ((held page).trans (if_pos rfl))]
      rfl
    · simp only [view?, held, image, if_neg own]
  · by_cases own : page = other
    · subst own
      rw [marked, held, if_pos rfl, if_pos (List.mem_singleton.mpr rfl)]
      rfl
    · have away : ¬ other = page := fun same => own same.symm
      simp [marked, held, own, away]

theorem flushWrites (housed : p.Housed) (apart : p.Separate) (page : PageId) :
    Ends (fun _ q => Wrote [page] p q) (fun q => p.marked page = true ∧ Wrote [] p q)
      (flushPage page p) := by
  cases present : p.resident.get? page with
  | none =>
    rw [flushAbsent present]
    refine Wrote.unmarked housed apart ?_
    rw [marked, present]
    rfl
  | some frame =>
    cases dirty : frame.page.isDirty with
    | false =>
      rw [flushClean present dirty]
      exact Wrote.unmarked housed apart ((markedPresent present).trans dirty)
    | true =>
      refine (flushDirty housed present dirty).mono (fun _ q saved => ?_) (fun _ lost => ?_)
      · exact saved.1.wrote housed apart present dirty (congrArg Pool.resident saved.2.1)
      · obtain ⟨⟨storage, rfl, seen⟩, _⟩ := lost
        exact ⟨(markedPresent present).trans dirty, .seen housed apart seen⟩

/- Some of the pages have been written, in their order, and then one could not be. -/
structure Broke (pages : List PageId) (written : List PageId) (p q : Pool) : Prop where
  next : ∃ failing rest, pages = written ++ failing :: rest ∧ p.marked failing = true
  wrote : Wrote written p q

theorem Broke.after (wrote : Wrote [page] p q) {written : List PageId}
    (broke : Broke pages written q r) : Broke (page :: pages) (page :: written) p r := by
  obtain ⟨failing, rest, same, mark⟩ := broke.next
  rw [wrote.marked] at mark
  refine ⟨⟨failing, rest, congrArg (page :: ·) same, ?_⟩, wrote.trans broke.wrote⟩
  split at mark
  · cases mark
  · exact mark

theorem flushParts (housed : p.Housed) (apart : p.Separate) (pages : List PageId) :
    Ends (fun _ q => Wrote pages p q) (fun q => ∃ written, Broke pages written p q)
      (pages.forM flushPage p) := by
  -- on the pages left; where one fails, the pages before it have been written
  induction pages generalizing p with
  | nil => exact .seen housed apart (.refl p.storage)
  | cons page rest ih =>
    change Ends _ _ ((flushPage page >>= fun _ => rest.forM flushPage) p)
    refine (flushWrites housed apart page).andThen (fun _ q wrote => ?_) (fun q lost => ?_)
    · refine (ih wrote.housed wrote.apart).mono (fun _ r later => wrote.trans later)
        (fun r broke => ?_)
      obtain ⟨written, broke⟩ := broke
      exact ⟨page :: written, broke.after wrote⟩
    · exact ⟨[], ⟨page, rest, rfl, lost.1⟩, lost.2⟩

theorem commitBreaks (housed : p.Housed) (apart : p.Separate) (txn : TxnId) :
    Ends (fun _ _ => True) (fun q => ∃ written, Broke (p.locks.ownedBy txn) written p q)
      (commit txn p) :=
  (flushParts housed apart (p.locks.ownedBy txn)).andThen (fun _ _ _ => trivial)
    fun _ broke => broke

theorem abortImages (txn : TxnId) (p : Pool) :
    Ends (fun _ q => ∀ page, q.image? page = p.image? page) (fun _ => False) (abort txn p) := by
  refine (abortEnds txn p).mono (fun _ q ended page => ?_) (fun _ none => none)
  obtain ⟨m, forgot, given⟩ := ended
  cases given with
  | giveAll => simp only [image?, forgot.storage, forgot.tables]

end Pool

namespace Engine

variable {t : Traffic Engine Operation Response} {txn : TxnId} {cause : Error} {e e' : Engine}

theorem commitFails (housed : e.pool.Housed) (apart : e.pool.Separate) (runs : e.Runs txn)
    (failed : commit txn e = .error cause e') :
    e'.Runs txn ∧ ∃ written, Pool.Broke (e.pool.locks.ownedBy txn) written e.pool e'.pool := by
  have ended : Ends _ _ (commit txn e) := finishEnds (Pool.commitBreaks housed apart txn)
  rw [failed] at ended
  rcases ended with ⟨still, _⟩ | ⟨_, broke, ledger⟩
  · exact absurd runs still
  · refine ⟨?_, broke⟩
    unfold Runs
    rw [ledger]
    exact runs

theorem abortKeepsImages (runs : e.Runs txn) :
    ∃ e', abort txn e = .ok () e' ∧ ∀ page, e'.pool.image? page = e.pool.image? page := by
  have ended : Ends _ _ (abort txn e) := finishEnds (Pool.abortImages txn e.pool)
  cases done : abort txn e with
  | ok _ e' =>
    rw [done] at ended
    exact ⟨e', rfl, ended.2.1⟩
  | error cause e' =>
    rw [done] at ended
    rcases ended with ⟨still, _⟩ | ⟨_, none, _⟩
    · exact absurd runs still
    · exact none.elim

/-- After a commit that fails the transaction can be aborted, and then the volumes hold what
they held and the changes of the pages that were written before the one that failed. -/
theorem failedCommitLands (reached : Reached t) (runs : t.state.Runs txn)
    (failed : commit txn t.state = .error cause e') :
    ∃ e'', abort txn e' = .ok () e'' ∧ ∃ written failing rest,
      t.state.pool.locks.ownedBy txn = written ++ failing :: rest ∧
      t.state.pool.marked failing = true ∧
      ∀ page, e''.pool.image? page =
        if page ∈ written ∧ t.state.pool.marked page = true then t.state.pool.view? page
        else t.state.pool.image? page := by
  have orderly := (reached.orderly []).holds.1
  obtain ⟨still, written, broke⟩ := commitFails orderly.toHoused orderly.apart runs failed
  obtain ⟨e'', done, images⟩ := abortKeepsImages still
  obtain ⟨failing, rest, same, mark⟩ := broke.next
  exact ⟨e'', done, written, failing, rest, same, mark,
    fun page => (images page).trans (broke.wrote.landed page)⟩

/- A transaction fills two pages, and the second one cannot be written. -/

def sampleTorn : History Operation Response × Traffic Engine Operation Response :=
  (steady Anything).next (.request (.insert 1 1 [9])) ((steady Anything).next
    (.request (.insert 1 1 [7])) ((steady Anything).next (.request .begin)
      ([], ⟨sampleTable [0, 0, 0, 0, 0, 0, 0, 0] [⟨.write, some 1, 1, .shortRead⟩], []⟩)))

def stateOf {α : Type} : EStateM.Result Error Engine α → Engine
  | .ok _ e => e
  | .error _ e => e

theorem sampleTornReached : Reached sampleTorn.2 := by
  have begun := Reached.asked ([], _) (.unused (sampleUnused [0, 0, 0, 0, 0, 0, 0, 0]
    [⟨.write, some 1, 1, .shortRead⟩])) .begin rfl
  exact .asked _ (.asked _ begun (.insert 1 1 [7]) rfl) (.insert 1 1 [9]) rfl

theorem sampleCommitFails : commit 1 sampleTorn.2.state =
    .error (.storage .shortRead) (stateOf (commit 1 sampleTorn.2.state)) := rfl

theorem sampleCommitLands : Reached sampleTorn.2 ∧ sampleTorn.2.state.Runs 1 ∧
    sampleTorn.2.state.pool.locks.ownedBy 1 = [⟨1, 0⟩, ⟨1, 1⟩] ∧
    ∃ e', abort 1 (stateOf (commit 1 sampleTorn.2.state)) = .ok () e' ∧
      ∃ written failing rest, [⟨1, 0⟩, ⟨1, 1⟩] = written ++ failing :: rest ∧
        sampleTorn.2.state.pool.marked failing = true ∧
        ∀ page, e'.pool.image? page =
          if page ∈ written ∧ sampleTorn.2.state.pool.marked page = true then
            sampleTorn.2.state.pool.view? page
          else sampleTorn.2.state.pool.image? page :=
  ⟨sampleTornReached, rfl, rfl, failedCommitLands sampleTornReached rfl sampleCommitFails⟩

/- The first page is not blank any more, though the commit failed and was aborted. -/
theorem tornCommitLasts : Reached sampleTorn.2 ∧ sampleTorn.2.state.Runs 1 ∧
    commit 1 sampleTorn.2.state =
      .error (.storage .shortRead) (stateOf (commit 1 sampleTorn.2.state)) ∧
    sampleTorn.2.state.pool.image? ⟨1, 0⟩ = some [0, 0, 0, 0, 0, 0, 0, 0] ∧
    ∃ e', abort 1 (stateOf (commit 1 sampleTorn.2.state)) = .ok () e' ∧
      e'.pool.image? ⟨1, 0⟩ = some [1, 7, 0, 0, 0, 0, 0, 0] :=
  ⟨sampleTornReached, rfl, sampleCommitFails, rfl, _, rfl, rfl⟩

end Engine
end PagedHeap
