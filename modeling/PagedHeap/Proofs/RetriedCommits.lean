import PagedHeap.Proofs.EndingOrder
import PagedHeap.Proofs.MixedUse

/-! Commits that are tried again. A commit that fails has written the first of the changed pages of
its transaction, and so has a flush of them; nothing else has happened. Pages that have been written
are passed over from then on, so the commit that works in the end has written the same pages in the
same order as one that works at once. -/
namespace PagedHeap

open Storage (SameContent)

namespace Pool

variable {p q r : Pool} {txn : TxnId} {page : PageId} {pages early late : List PageId}
  {storage : Storage} {frame : Frame}

/- Volumes that hold the same. -/

def Reread (p q : Pool) : Prop := ∃ storage, p.storage.SameContent storage ∧ q = {p with storage}

theorem Reread.refl (p : Pool) : Reread p p := ⟨p.storage, .refl _, rfl⟩

theorem Reread.symm (same : Reread p q) : Reread q p := by
  obtain ⟨storage, held, rfl⟩ := same
  exact ⟨p.storage, held.symm, rfl⟩

theorem Reread.trans (first : Reread p q) (second : Reread q r) : Reread p r := by
  obtain ⟨storage, held, rfl⟩ := first
  obtain ⟨storage', held', rfl⟩ := second
  exact ⟨storage', held.trans held', rfl⟩

theorem Reread.image (same : Reread p q) (page : PageId) : q.image? page = p.image? page := by
  obtain ⟨storage, held, rfl⟩ := same
  simp only [image?, held.page?]

theorem Reread.housed (same : Reread p q) (housed : p.Housed) : q.Housed := by
  obtain ⟨storage, held, rfl⟩ := same
  exact {
    named := housed.named
    sized := fun table file found => (held.size _).trans (housed.sized table file found)
    bounded := housed.bounded
    keeps := fun page frame present => by
      obtain ⟨file, found, key, layout, inside⟩ := housed.keeps page frame present
      exact ⟨file, found, key, layout, (held.pages _).symm ▸ inside⟩ }

/- Writing back. -/

def stored (p : Pool) (page : PageId) (image : Bytes) : Storage :=
  match p.tables.get? page.table with
  | none => p.storage
  | some file =>
    match p.storage.store file.volume page.number image with
    | .ok storage => storage
    | .error _ => p.storage

def writeBack (p : Pool) (page : PageId) : Pool :=
  match p.resident.get? page with
  | none => p
  | some frame =>
    if frame.page.isDirty then
      {p with
        storage := p.stored page frame.page.image
        resident := p.resident.insert page frame.clean}
    else p

theorem writeBackUnmarked (clean : p.marked page = false) : p.writeBack page = p := by
  unfold writeBack
  cases present : p.resident.get? page with
  | none => rfl
  | some frame => simp only [(markedPresent present).symm.trans clean, Bool.false_eq_true, if_false]

theorem writeBackMarked (present : p.resident.get? page = some frame)
    (dirty : frame.page.isDirty = true) : p.writeBack page = {p with
      storage := p.stored page frame.page.image
      resident := p.resident.insert page frame.clean} := by
  unfold writeBack
  simp only [present, dirty, if_true]

theorem writeBackResident (p : Pool) (page other : PageId) :
    (p.writeBack page).resident.get? other =
      if other = page then (p.resident.get? other).map Frame.clean else p.resident.get? other := by
  cases mark : p.marked page with
  | false =>
    rw [writeBackUnmarked mark]
    split
    · rename_i own
      subst own
      cases present : p.resident.get? other with
      | none => rfl
      | some frame =>
        exact congrArg some (frame.cleanUnmarked ((markedPresent present).symm.trans mark)).symm
    · rfl
  | true =>
    cases present : p.resident.get? page with
    | none => simp [marked, present] at mark
    | some frame =>
      rw [writeBackMarked present ((markedPresent present).symm.trans mark), KeyMap.getInsert]
      by_cases own : page = other
      · subst own
        simp only [if_true, present, Option.map_some]
      · rw [if_neg own, if_neg fun same => own same.symm]

theorem writeBackRest (p : Pool) (page : PageId) : p.writeBack page =
    {p with storage := (p.writeBack page).storage, resident := (p.writeBack page).resident} := by
  unfold writeBack
  split
  · rfl
  · split <;> rfl

theorem Reread.stored (same : Reread p q) (page : PageId) (image : Bytes) :
    (p.stored page image).SameContent (q.stored page image) := by
  obtain ⟨storage, held, rfl⟩ := same
  unfold Pool.stored
  cases p.tables.get? page.table with
  | none => exact held
  | some file =>
    simp only
    cases there : storage.store file.volume page.number image with
    | ok after =>
      obtain ⟨before, here, like⟩ := held.stored there
      simp only [here]
      exact like
    | error cause =>
      cases here : p.storage.store file.volume page.number image with
      | ok before =>
        obtain ⟨after, other, _⟩ := held.symm.stored here
        rw [there] at other
        cases other
      | error => exact held

theorem Reread.writeBack (same : Reread p q) (page : PageId) :
    Reread (p.writeBack page) (q.writeBack page) := by
  have stored := same.stored page
  obtain ⟨storage, held, rfl⟩ := same
  unfold Pool.writeBack
  simp only
  cases p.resident.get? page with
  | none => exact ⟨storage, held, rfl⟩
  | some frame =>
    simp only
    split
    · exact ⟨_, stored frame.page.image, rfl⟩
    · exact ⟨storage, held, rfl⟩

theorem flushWritesBack (housed : p.Housed) (page : PageId) :
    Ends (fun _ q => Reread (p.writeBack page) q) (Reread p) (flushPage page p) := by
  cases present : p.resident.get? page with
  | none =>
    have unmarked : p.marked page = false := by rw [marked, present]; rfl
    rw [flushAbsent present, writeBackUnmarked unmarked]
    exact .refl p
  | some frame =>
    cases dirty : frame.page.isDirty with
    | false =>
      rw [flushClean present dirty, writeBackUnmarked ((markedPresent present).trans dirty)]
      exact .refl p
    | true =>
      refine (flushDirty housed present dirty).mono (fun _ q saved => ?_) (fun _ lost => ?_)
      · obtain ⟨_, made, file, after, found, stored, same⟩ := saved
        rw [writeBackMarked present dirty]
        refine ⟨q.storage, ?_, made⟩
        simp only [Pool.stored, found, stored]
        exact same
      · obtain ⟨⟨storage, rfl, seen⟩, _⟩ := lost
        exact ⟨storage, seen.toSameContent, rfl⟩

/- Writing back one page after the other. -/

def writeBackAll (p : Pool) (pages : List PageId) : Pool := pages.foldl writeBack p

theorem Reread.writeBackAll (same : Reread p q) (pages : List PageId) :
    Reread (p.writeBackAll pages) (q.writeBackAll pages) := by
  induction pages generalizing p q with
  | nil => exact same
  | cons page rest ih => exact ih (same.writeBack page)

theorem writeBackAllResident (p : Pool) (pages : List PageId) (page : PageId) :
    (p.writeBackAll pages).resident.get? page =
      if page ∈ pages then (p.resident.get? page).map Frame.clean else p.resident.get? page := by
  induction pages generalizing p with
  | nil => rfl
  | cons first rest ih =>
    refine (ih (p.writeBack first)).trans ?_
    rw [writeBackResident]
    by_cases own : page = first <;> by_cases later : page ∈ rest <;>
      cases p.resident.get? page <;> simp [own, later, Frame.clean, Page.markClean]

theorem writeBackAllRest (p : Pool) (pages : List PageId) : p.writeBackAll pages = {p with
    storage := (p.writeBackAll pages).storage
    resident := (p.writeBackAll pages).resident} := by
  induction pages generalizing p with
  | nil => rfl
  | cons first rest ih =>
    have later := ih (p.writeBack first)
    change (p.writeBack first).writeBackAll rest = {p with
      storage := ((p.writeBack first).writeBackAll rest).storage
      resident := ((p.writeBack first).writeBackAll rest).resident}
    generalize (p.writeBack first).writeBackAll rest = q at later ⊢
    rw [writeBackRest p first] at later
    exact later

theorem writeBackAllLocks (p : Pool) (pages : List PageId) :
    (p.writeBackAll pages).locks = p.locks := by rw [writeBackAllRest]

theorem writeBackAllUnmarked (clean : ∀ page ∈ pages, p.marked page = false) :
    p.writeBackAll pages = p := by
  induction pages with
  | nil => rfl
  | cons first rest ih =>
    obtain ⟨here, later⟩ := List.forall_mem_cons.mp clean
    change (p.writeBack first).writeBackAll rest = p
    rw [writeBackUnmarked here, ih later]

theorem writeBackAgain (inside : late ⊆ early) :
    (p.writeBackAll early).writeBackAll late = p.writeBackAll early := by
  refine writeBackAllUnmarked fun page there => ?_
  rw [marked, writeBackAllResident, if_pos (inside there)]
  cases p.resident.get? page <;> rfl

theorem writeBackResumed (first : early <+: pages) (second : late <+: pages) :
    ∃ whole, whole <+: pages ∧ (late = pages → whole = pages) ∧
      (p.writeBackAll early).writeBackAll late = p.writeBackAll whole := by
  rcases List.prefix_or_prefix_of_prefix first second with ⟨more, rfl⟩ | before
  · refine ⟨early ++ more, second, id, ?_⟩
    simp only [writeBackAll, List.foldl_append]
    exact congrArg (writeBackAll · more) (writeBackAgain (List.Subset.refl early))
  · refine ⟨early, first, fun all => ?_, writeBackAgain before.subset⟩
    exact first.eq_of_length_le (all ▸ before.length_le)

theorem flushWritesBackEach (housed : p.Housed) (pages : List PageId) :
    Ends (fun _ q => Reread (p.writeBackAll pages) q)
      (fun q => ∃ early, early <+: pages ∧ Reread (p.writeBackAll early) q)
      (pages.forM flushPage p) := by
  -- on the pages left; where one fails, the pages before it have been written
  induction pages generalizing p with
  | nil => exact .refl p
  | cons page rest ih =>
    change Ends _ _ ((flushPage page >>= fun _ => rest.forM flushPage) p)
    refine ((flushWritesBack housed page).both (flushEnds housed page)).andThen
      (fun _ q wrote => ?_) (fun q lost => ⟨[], List.nil_prefix, lost.1⟩)
    obtain ⟨wrote, moves, _⟩ := wrote
    refine (ih (housed.moves moves)).mono (fun _ r later => (wrote.writeBackAll rest).trans later)
      fun r lost => ?_
    obtain ⟨early, before, later⟩ := lost
    exact ⟨page :: early, List.cons_prefix_cons.mpr ⟨rfl, before⟩,
      (wrote.writeBackAll early).trans later⟩

theorem Housed.writesBack (housed : p.Housed) (apart : p.Separate) (page : PageId) :
    Wrote [page] p (p.writeBack page) := by
  cases mark : p.marked page with
  | false =>
    rw [writeBackUnmarked mark]
    exact .unmarked housed apart mark
  | true =>
    cases present : p.resident.get? page with
    | none => simp [marked, present] at mark
    | some frame =>
      obtain ⟨file, found, key, layout, inside⟩ := housed.keeps page frame present
      have dirty := (markedPresent present).symm.trans mark
      have whole : frame.page.image.length = p.storage.pageSize file.volume := by
        rw [frame.page.whole, layout, housed.sized _ _ found]
      obtain ⟨storage, stored⟩ := Storage.storeFits frame.page.image inside
      have made : p.stored page frame.page.image = storage := by
        simp only [Pool.stored, found, stored]
      have move : Move (.save page) p (p.writeBack page) := by
        rw [writeBackMarked present dirty, made]
        exact .save present found (Storage.stored inside whole stored)
      exact move.wrote housed apart present dirty
        (congrArg Pool.resident (writeBackMarked present dirty))

theorem Housed.writesBackAll (housed : p.Housed) (apart : p.Separate) (pages : List PageId) :
    Wrote pages p (p.writeBackAll pages) := by
  induction pages generalizing p with
  | nil => exact .seen housed apart (.refl p.storage)
  | cons page rest ih =>
    have wrote := housed.writesBack apart page
    exact wrote.trans (ih wrote.housed wrote.apart)

/- Attempts. -/

/- The first of the pages have been written, and nothing else has happened. -/
def Begun (pages : List PageId) (p q : Pool) : Prop :=
  ∃ early, early <+: pages ∧ Reread (p.writeBackAll early) q

namespace Begun

theorem reread (pages : List PageId) (same : Reread p q) : Begun pages p q :=
  ⟨[], List.nil_prefix, same⟩

theorem locks (begun : Begun pages p q) : q.locks = p.locks := by
  obtain ⟨early, _, storage, _, rfl⟩ := begun
  exact writeBackAllLocks p early

theorem flushes (begun : Begun (p.locks.ownedBy txn) p q) (housed : q.Housed) :
    Ends (fun _ r => Reread (p.writeBackAll (p.locks.ownedBy txn)) r)
      (Begun (p.locks.ownedBy txn) p) (flushOwned txn q) := by
  have flushed : Ends _ _ (flushOwned txn q) := flushWritesBackEach housed (q.locks.ownedBy txn)
  rw [begun.locks] at flushed
  obtain ⟨early, first, same⟩ := begun
  refine flushed.mono (fun _ r ended => ?_) (fun r lost => ?_)
  · obtain ⟨whole, _, all, resumed⟩ := writeBackResumed (p := p) first (List.prefix_refl _)
    rw [← all rfl, ← resumed]
    exact (same.writeBackAll _).trans (all rfl ▸ ended)
  · obtain ⟨late, second, ended⟩ := lost
    obtain ⟨whole, inside, _, resumed⟩ := writeBackResumed (p := p) first second
    exact ⟨whole, inside, resumed ▸ (same.writeBackAll late).trans ended⟩

end Begun

theorem commitSure (housed : p.Housed) (writes : p.Spared .write) (txn : TxnId) :
    ∃ q, commit txn p = .ok () q := by
  have ended : Ends (fun _ _ => True) (fun _ => False) (commit txn p) :=
    (commitEnds housed txn).mono (fun _ _ _ => trivial) (fun _ lost => lost.2 writes)
  obtain ⟨_, q, done, _⟩ := ended.sure
  exact ⟨q, done⟩

end Pool

namespace Engine

variable {e m u v : Engine} {txn : TxnId} {storage : Storage}

/- Commits that fail and flushes of the pages that a transaction owns, one after the other. -/
inductive Retried (txn : TxnId) (e : Engine) : Engine → Prop
  | start : Retried txn e e
  | failed {m m' : Engine} {cause} (before : Retried txn e m)
      (failed : commit txn m = .error cause m') : Retried txn e m'
  | flushed {m m' : Engine} (before : Retried txn e m)
      (done : onPool (Pool.flushOwned txn) m = .ok () m') : Retried txn e m'
  | unflushed {m m' : Engine} {cause} (before : Retried txn e m)
      (failed : onPool (Pool.flushOwned txn) m = .error cause m') : Retried txn e m'

/- Some of what the transaction has to write has been written, and nothing else has happened. -/
structure Pending (txn : TxnId) (e m : Engine) : Prop where
  rest : m = {e with pool := m.pool}
  begun : Pool.Begun (e.pool.locks.ownedBy txn) e.pool m.pool
  housed : m.pool.Housed

structure Landed (txn : TxnId) (e u : Engine) : Prop where
  rest : u = {e with pool := u.pool, ledger := e.ledger.mark txn .committed}
  written : ∃ q, Pool.Reread (e.pool.writeBackAll (e.pool.locks.ownedBy txn)) q ∧
    u.pool = {q with locks := (q.locks.releaseAll txn).2}

namespace Pending

theorem runs (pending : Pending txn e m) (runs : e.Runs txn) : m.Runs txn := by
  rw [pending.rest]
  exact runs

theorem pool (pending : Pending txn e m) :
    Ends (fun _ q => Pool.Reread (e.pool.writeBackAll (e.pool.locks.ownedBy txn)) q ∧ q.Housed)
      (fun q => Pending txn e {m with pool := q}) (Pool.flushOwned txn m.pool) := by
  have kept : Ends (fun _ q => q.Housed) Pool.Housed (Pool.flushOwned txn m.pool) :=
    (Pool.flushEach pending.housed (m.pool.locks.ownedBy txn)).mono
      (fun _ _ saved => pending.housed.moves saved.1) fun _ lost => pending.housed.moves lost.1
  refine ((pending.begun.flushes pending.housed).both kept).mono (fun _ _ ended => ended)
    fun q lost => ⟨?_, lost.1, lost.2⟩
  exact congrArg (fun m : Engine => {m with pool := q}) pending.rest

theorem flushes (pending : Pending txn e m) :
    Ends (fun _ m' => Pending txn e m') (Pending txn e) (onPool (Pool.flushOwned txn) m) := by
  refine Ends.inPart (pending.pool.mono (fun _ q ended => ⟨?_, ?_, ended.2⟩) fun _ lost => lost)
  · exact congrArg (fun m : Engine => {m with pool := q}) pending.rest
  · exact ⟨_, List.prefix_refl _, ended.1⟩

theorem commits (pending : Pending txn e m) (runs : e.Runs txn) :
    Ends (fun _ u => Landed txn e u) (Pending txn e) (commit txn m) := by
  have worked : Ends (fun _ m' => m' = {e with pool := m'.pool} ∧
        ∃ q, Pool.Reread (e.pool.writeBackAll (e.pool.locks.ownedBy txn)) q ∧
          m'.pool = {q with locks := (q.locks.releaseAll txn).2})
      (Pending txn e) (onPool (Pool.commit txn) m) := by
    refine Ends.inPart (pending.pool.andThen (fun _ q ended => ⟨?_, q, ended.1, rfl⟩)
      fun _ lost => lost)
    exact congrArg (fun m : Engine => {m with pool := {q with
      locks := (q.locks.releaseAll txn).2}}) pending.rest
  rw [commit, finishRunning (pending.runs runs)]
  refine worked.andThen (fun _ m' ended => ⟨?_, ended.2⟩) (fun _ lost => lost)
  exact congrArg (fun m : Engine => {m with ledger := m.ledger.mark txn .committed}) ended.1

end Pending

theorem Retried.pending (retried : Retried txn e m) (kempt : e.pool.Kempt) (runs : e.Runs txn) :
    Pending txn e m := by
  induction retried with
  | start => exact ⟨rfl, .reread _ (.refl _), kempt.toHoused⟩
  | failed before failed ih =>
    have ended := ih.commits runs
    rw [failed] at ended
    exact ended
  | flushed before done ih =>
    have ended := ih.flushes
    rw [done] at ended
    exact ended
  | unflushed before failed ih =>
    have ended := ih.flushes
    rw [failed] at ended
    exact ended

/- What is left between attempts: the transaction runs with all its locks, the cache has the
pages that it had, and those that are not its own are as they were. Its own have their bytes, and
are marked as they were or written. -/
structure Retry (txn : TxnId) (e m : Engine) : Prop where
  runs : m.Runs txn
  rest : m = {e with pool := {e.pool with
    storage := m.pool.storage, resident := m.pool.resident}}
  locks : m.pool.locks = e.pool.locks
  resident : ∀ page, m.pool.resident.contains page = e.pool.resident.contains page
  others : ∀ page, e.pool.locks.access? txn page ≠ some .exclusive →
    m.pool.resident.get? page = e.pool.resident.get? page ∧
      (e.pool.Separate → m.pool.image? page = e.pool.image? page)
  own : ∀ page frame, e.pool.locks.access? txn page = some .exclusive →
    e.pool.resident.get? page = some frame →
    ∃ now, m.pool.resident.get? page = some now ∧ now.id = frame.id ∧ now.page.id = frame.page.id ∧
      now.page.image = frame.page.image ∧
      (now.page.dirtiedBy = frame.page.dirtiedBy ∧
          (e.pool.Separate → m.pool.image? page = e.pool.image? page) ∨
        now.page.dirtiedBy = none ∧
          (e.pool.Separate → m.pool.image? page = some frame.page.image))

theorem Pending.retry (pending : Pending txn e m) (kempt : e.pool.Kempt) (runs : e.Runs txn) :
    Retry txn e m := by
  obtain ⟨early, first, same⟩ := pending.begun
  have image (apart : e.pool.Separate) (page : PageId) : m.pool.image? page =
      if page ∈ early ∧ e.pool.marked page = true then e.pool.view? page
      else e.pool.image? page :=
    (same.image page).trans ((kempt.toHoused.writesBackAll apart early).landed page)
  have frames := e.pool.writeBackAllResident early
  have rest := e.pool.writeBackAllRest early
  obtain ⟨storage, _, made⟩ := same
  have here (page : PageId) : m.pool.resident.get? page = if page ∈ early then
      (e.pool.resident.get? page).map Frame.clean else e.pool.resident.get? page := by
    rw [made]
    exact frames page
  refine ⟨pending.runs runs, ?_, pending.begun.locks, fun page => ?_, fun page free => ?_,
    fun page frame owns present => ?_⟩
  · rw [rest] at made
    conv_lhs => rw [pending.rest, made]
    rw [made]
  · simp only [KeyMap.contains, here]
    split
    · exact Option.isSome_map
    · rfl
  · have away : page ∉ early := fun there =>
      free (kempt.coherent.memOwnedBy.mp (first.subset there))
    exact ⟨(here page).trans (if_neg away), fun apart =>
      (image apart page).trans (if_neg fun both => away both.1)⟩
  · by_cases there : page ∈ early
    · refine ⟨frame.clean, by rw [here, if_pos there, present]; rfl, rfl, rfl, rfl, ?_⟩
      cases dirty : frame.page.isDirty with
      | true =>
        refine .inr ⟨rfl, fun apart => (image apart page).trans ?_⟩
        rw [if_pos ⟨there, (Pool.markedPresent present).trans dirty⟩, Pool.viewResident present]
      | false =>
        refine .inl ⟨congrArg (·.page.dirtiedBy) (frame.cleanUnmarked dirty), fun apart =>
          (image apart page).trans (if_neg fun both => ?_)⟩
        rw [Pool.markedPresent present, dirty] at both
        cases both.2
    · exact ⟨frame, by rw [here, if_neg there, present], rfl, rfl, rfl, .inl ⟨rfl, fun apart =>
        (image apart page).trans (if_neg fun both => there both.1)⟩⟩

/- The same engine on volumes that hold the same, whatever becomes of their calls. -/
def upon (e : Engine) (storage : Storage) : Engine := {e with pool := {e.pool with storage}}

theorem Pending.upon (housed : e.pool.Housed) (same : e.pool.storage.SameContent storage) :
    Pending txn e (e.upon storage) :=
  have reread : Pool.Reread e.pool (e.upon storage).pool := ⟨storage, same, rfl⟩
  ⟨rfl, .reread _ reread, reread.housed housed⟩

theorem Landed.same (mine : Landed txn e v) (theirs : Landed txn e u) : Same v u := by
  obtain ⟨q, first, left⟩ := mine.written
  obtain ⟨r, second, right⟩ := theirs.written
  obtain ⟨storage, held, rfl⟩ := first.symm.trans second
  refine ⟨?_, fun table file _ => ?_⟩
  · conv_rhs => rw [mine.rest, left]
    rw [theirs.rest, right]
  · rw [left, right]
    exact ⟨held.pages file.volume, fun n => held.page? file.volume n⟩

variable {t : Traffic Engine Job (Option Response)}

/-- However often a commit is tried, the transaction runs on with its locks and its pages until it
works; and then all is left as by a commit that works at once. -/
theorem commitsRetried (attained : Attained t) (runs : t.state.Runs txn)
    (retried : Retried txn t.state m) :
    Retry txn t.state m ∧ (m.pool.Spared .write → ∃ u, commit txn m = .ok () u) ∧
      ∀ u storage, commit txn m = .ok () u → t.state.pool.storage.SameContent storage →
        ((t.state.upon storage).pool.Spared .write →
          ∃ v, commit txn (t.state.upon storage) = .ok () v) ∧
        ∀ v, commit txn (t.state.upon storage) = .ok () v → Same v u := by
  have kempt := attained.kempt
  have pending := retried.pending kempt runs
  have sure {m : Engine} (pending : Pending txn t.state m) (writes : m.pool.Spared .write) :
      ∃ u, commit txn m = .ok () u := by
    obtain ⟨q, worked⟩ := Pool.commitSure pending.housed writes txn
    exact ⟨_, finishRuns (pending.runs runs) worked⟩
  refine ⟨pending.retry kempt runs, sure pending, fun u storage done same => ?_⟩
  have calm : Pending txn t.state (t.state.upon storage) := .upon kempt.toHoused same
  refine ⟨sure calm, fun v done' => ?_⟩
  have theirs := pending.commits runs
  have mine := calm.commits runs
  rw [done] at theirs
  rw [done'] at mine
  exact mine.same theirs

/- A transaction fills two pages. The second one can be written at the third attempt only. -/

def sampleStubborn : History Job (Option Response) × Traffic Engine Job (Option Response) :=
  mixed.next (.operation (.request (.insert 1 1 [9])))
    (mixed.next (.operation (.request (.insert 1 1 [7])))
      (mixed.next (.operation (.request .begin))
        ([], ⟨sampleTable [0, 0, 0, 0, 0, 0, 0, 0] [⟨.write, some 1, 2, .shortRead⟩], []⟩)))

def sampleTwice : Engine :=
  stateOf (onPool (Pool.flushOwned 1) (stateOf (commit 1 sampleStubborn.2.state)))

def sampleWilling : Storage := sampleStubborn.2.state.pool.storage.update 0 ({· with script := []})

theorem sampleStubbornAttained : Attained sampleStubborn.2 := by
  have begun := Attained.asked ([], _) (.fresh (sampleUnused [0, 0, 0, 0, 0, 0, 0, 0]
    [⟨.write, some 1, 2, .shortRead⟩]).fresh) (.operation (.request .begin)) trivial rfl
  exact .asked _ (.asked _ begun (.operation (.request (.insert 1 1 [7]))) trivial rfl)
    (.operation (.request (.insert 1 1 [9]))) trivial rfl

theorem sampleTriedTwice : Retried 1 sampleStubborn.2.state sampleTwice := by
  have once : commit 1 sampleStubborn.2.state =
    .error (.storage .shortRead) (stateOf (commit 1 sampleStubborn.2.state)) := rfl
  have twice : onPool (Pool.flushOwned 1) (stateOf (commit 1 sampleStubborn.2.state)) =
    .error (.storage .shortRead) sampleTwice := rfl
  exact .unflushed (.failed .start once) twice

def works {α : Type} : EStateM.Result Error Engine α → Bool
  | .ok .. => true
  | .error .. => false

theorem worksOk {r : EStateM.Result Error Engine Unit} (h : works r = true) :
    r = .ok () (stateOf r) := by
  cases r with
  | ok => rfl
  | error => cases h

theorem sampleRetried : Attained sampleStubborn.2 ∧ sampleStubborn.2.state.Runs 1 ∧
    Retried 1 sampleStubborn.2.state sampleTwice ∧ Retry 1 sampleStubborn.2.state sampleTwice ∧
    sampleTwice.pool.marked ⟨1, 0⟩ = false ∧ sampleTwice.pool.marked ⟨1, 1⟩ = true ∧
    ∃ u v, commit 1 sampleTwice = .ok () u ∧
      commit 1 (sampleStubborn.2.state.upon sampleWilling) = .ok () v ∧ Same v u := by
  have runs : sampleStubborn.2.state.Runs 1 := rfl
  have same : sampleStubborn.2.state.pool.storage.SameContent sampleWilling :=
    Storage.sameUpdate _ _ (fun _ => rfl) (fun _ => rfl)
  have done : commit 1 sampleTwice = .ok () _ := worksOk (by decide +kernel)
  have calm : commit 1 (sampleStubborn.2.state.upon sampleWilling) = .ok () _ :=
    worksOk (by decide +kernel)
  obtain ⟨retry, -, ends⟩ := commitsRetried sampleStubbornAttained runs sampleTriedTwice
  exact ⟨sampleStubbornAttained, runs, sampleTriedTwice, retry, rfl, rfl, _, _, done, calm,
    (ends _ sampleWilling done same).2 _ calm⟩

/- One file under two tables. A transaction fills its first page by way of both. -/

def sharedTables : Engine := {sampleTables with pool := {sampleTables.pool with
  storage := ⟨(Directory.empty "").put "t" [⟨8, 0⟩],
    [⟨8, .file "t", [], [], []⟩, ⟨8, .file "t", [], [], []⟩]⟩}}

def sharedFilled : History Job (Option Response) × Traffic Engine Job (Option Response) :=
  mixed.next (.operation (.request (.insert 1 2 [9])))
    (mixed.next (.operation (.request (.insert 1 1 [7])))
      (mixed.next (.operation (.request .begin)) ([], ⟨sharedTables, []⟩)))

def sharedFlushed : Engine := stateOf (onPool (Pool.flushOwned 1) sharedFilled.2.state)

theorem sharedFresh : sharedTables.pool.Fresh where
  named table file found := sampleTablesUnused.named table file found
  sized table file found := by
    rcases sampleKnown found with rfl | rfl <;> rfl
  resident := rfl
  locks := rfl

/- After a flush the first table's page is not marked any more, and the file holds something
else. -/
theorem sharedFileDiffers : Attained sharedFilled.2 ∧ sharedFilled.2.state.Runs 1 ∧
    sharedFilled.2.state.pool.locks.access? 1 ⟨1, 0⟩ = some .exclusive ∧
    sharedFilled.2.state.pool.marked ⟨1, 0⟩ = true ∧
    ∃ m, Retried 1 sharedFilled.2.state m ∧ m.pool.marked ⟨1, 0⟩ = false ∧
      m.pool.view? ⟨1, 0⟩ = some [1, 7, 0, 0, 0, 0, 0, 0] ∧
      m.pool.image? ⟨1, 0⟩ = some [1, 9, 0, 0, 0, 0, 0, 0] := by
  have begun :=
    Attained.asked ([], _) (.fresh sharedFresh) (.operation (.request .begin)) trivial rfl
  have filled : Attained sharedFilled.2 :=
    .asked _ (.asked _ begun (.operation (.request (.insert 1 1 [7]))) trivial rfl)
      (.operation (.request (.insert 1 2 [9]))) trivial rfl
  have flushed : works (onPool (Pool.flushOwned 1) sharedFilled.2.state) = true ∧
      sharedFlushed.pool.marked ⟨1, 0⟩ = false ∧
      sharedFlushed.pool.view? ⟨1, 0⟩ = some [1, 7, 0, 0, 0, 0, 0, 0] ∧
      sharedFlushed.pool.image? ⟨1, 0⟩ = some [1, 9, 0, 0, 0, 0, 0, 0] := by decide +kernel
  exact ⟨filled, rfl, rfl, rfl, sharedFlushed, .flushed .start (worksOk flushed.1), flushed.2⟩

end Engine
end PagedHeap
