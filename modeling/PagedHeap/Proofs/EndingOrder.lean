import PagedHeap.Proofs.FailedCommits

/-! Transactions that end in another order. Whoever ends touches the pages that he alone owns
and takes himself out of the locks, so it makes no difference who ends first. -/
namespace PagedHeap

/- Giving back locks. -/

namespace Holders

def listed : List TxnId → Option (List TxnId)
  | [] => none
  | holders => some holders

theorem getDrop (h : Holders) (page other : PageId) (txn : TxnId) :
    (h.drop page txn).get? other =
      if page = other then listed ((h.of page).filter (· ≠ txn)) else h.get? other := by
  unfold drop
  split
  · rename_i none
    rw [KeyMap.getErase, none]
    rfl
  · rename_i rest some
    rw [KeyMap.getInsert]
    split
    · cases found : (h.of page).filter (· ≠ txn) with
      | nil => exact absurd found some
      | cons first others => rfl
    · rfl

theorem dropThins (h : Holders) (page : PageId) (txn : TxnId) : h.Thins (h.drop page txn) := by
  unfold drop
  split
  · exact .erase h page
  · rename_i rest some
    refine .insert _ ?_
    cases found : h.get? page with
    | some holders => simp [KeyMap.contains, found]
    | none =>
      have nobody : h.of page = [] := by simp [of, KeyMap.getD, found]
      rw [nobody] at some
      exact absurd rfl some

theorem dropComm (h : Holders) (page page' : PageId) (txn txn' : TxnId) :
    (h.drop page txn).drop page' txn' = (h.drop page' txn').drop page txn := by
  refine ((h.dropThins page txn).trans (dropThins ..)).unique
    ((h.dropThins page' txn').trans (dropThins ..)) fun other => ?_
  simp only [getDrop, ofDrop]
  by_cases here : page = other
  · by_cases there : page' = other
    · subst here there
      simp only [if_true, List.filter_filter, Bool.and_comm]
    · simp [here, there]
  · by_cases there : page' = other
    · simp [here, there]
    · simp [here, there]

def dropEach (h : Holders) (left : List (PageId × TxnId)) : Holders :=
  left.foldl (fun h place => h.drop place.1 place.2) h

theorem dropEachComm (h : Holders) (left left' : List (PageId × TxnId)) :
    (h.dropEach left).dropEach left' = (h.dropEach left').dropEach left := by
  unfold dropEach
  rw [← List.foldl_append, ← List.foldl_append]
  exact List.perm_append_comm.foldl_eq' (fun _ _ _ _ h => dropComm h ..) h

end Holders

namespace LockTable

def places (t : LockTable) (txn : TxnId) : List (PageId × TxnId) :=
  (t.heldBy txn).map fun lock => (lock.page, txn)

theorem leaveEach (locks : List Lock) (txn : TxnId) (t : LockTable) :
    locks.foldl (fun t lock => t.leave txn lock.page) t =
      ⟨t.sharers.dropEach (locks.map fun lock => (lock.page, txn)),
        t.owners.dropEach (locks.map fun lock => (lock.page, txn)), t.held⟩ := by
  induction locks generalizing t with
  | nil => rfl
  | cons lock rest ih => exact ih _

theorem releasedAll (t : LockTable) (txn : TxnId) : (t.releaseAll txn).2 =
    ⟨t.sharers.dropEach (t.places txn), t.owners.dropEach (t.places txn), t.held.erase txn⟩ := by
  simp only [releaseAll, leaveEach, places]

theorem releaseAllComm (t : LockTable) (txn txn' : TxnId) :
    ((t.releaseAll txn).2.releaseAll txn').2 = ((t.releaseAll txn').2.releaseAll txn).2 := by
  by_cases own : txn = txn'
  · rw [own]
  · have places : (t.releaseAll txn).2.places txn' = t.places txn' := by
      rw [LockTable.places, heldByReleaseAll, if_neg own, LockTable.places]
    have places' : (t.releaseAll txn').2.places txn = t.places txn := by
      rw [LockTable.places, heldByReleaseAll, if_neg fun same => own same.symm, LockTable.places]
    rw [releasedAll (t.releaseAll txn).2, releasedAll (t.releaseAll txn').2, places, places']
    simp only [releasedAll, Holders.dropEachComm _ (t.places txn), t.held.eraseComm txn]

def releaseEach (t : LockTable) (txns : List TxnId) : LockTable :=
  txns.foldl (fun t txn => (t.releaseAll txn).2) t

theorem releaseEachPerm (t : LockTable) {txns txns' : List TxnId} (perm : txns.Perm txns') :
    t.releaseEach txns = t.releaseEach txns' :=
  perm.foldl_eq' (fun _ _ _ _ t => releaseAllComm t ..) t

theorem accessReleaseEach (t : LockTable) (txns : List TxnId) {txn : TxnId} (away : txn ∉ txns)
    (page : PageId) : (t.releaseEach txns).access? txn page = t.access? txn page := by
  induction txns generalizing t with
  | nil => rfl
  | cons first rest ih =>
    rw [List.mem_cons, not_or] at away
    refine (ih _ away.2).trans ?_
    rw [accessReleaseAll, if_neg fun same => away.1 same.symm]

end LockTable

/- What an ending makes of a page that its transaction owns. -/

def Frame.clean (f : Frame) : Frame := {f with page := f.page.markClean}

theorem Frame.cleanUnmarked (f : Frame) (clean : f.page.isDirty = false) : f.clean = f := by
  have none : f.page.dirtiedBy = none :=
    Option.isNone_iff_eq_none.mp (Option.isSome_eq_false_iff.mp clean)
  obtain ⟨id, page⟩ := f
  cases page
  cases none
  rfl

abbrev Cell := Option Frame × Option Bytes

namespace Cell

def written : Cell → Cell
  | (some f, image) => (some f.clean, if f.page.isDirty then some f.page.image else image)
  | (none, image) => (none, image)

def forgotten (cell : Cell) : Cell := (none, cell.2)

theorem writtenTwice (cell : Cell) : cell.written.written = cell.written := by
  obtain ⟨frame | frame, image⟩ := cell <;> rfl

theorem forgottenTwice (cell : Cell) : cell.forgotten.forgotten = cell.forgotten := rfl

end Cell

/- Who ends, and how. -/
structure Closing where
  txn : TxnId
  commits : Bool
  deriving DecidableEq, Repr

namespace Closing

def leaves (c : Closing) : Cell → Cell := if c.commits then Cell.written else Cell.forgotten

def status (c : Closing) : Status := if c.commits then .committed else .aborted

def poolWork (c : Closing) : Instant Pool Unit :=
  if c.commits then Pool.commit c.txn else Pool.abort c.txn

def work (c : Closing) : Instant Engine Unit :=
  if c.commits then Engine.commit c.txn else Engine.abort c.txn

end Closing

namespace Pool

variable {p q r : Pool} {page : PageId} {pages more : List PageId} {txn : TxnId}

def cell (p : Pool) (page : PageId) : Cell := (p.resident.get? page, p.image? page)

/- Pages that cannot be asked for by number. -/
def SameBeyond (p q : Pool) : Prop :=
  ∀ table file n, p.tables.get? table = some file → UInt32.size ≤ n →
    q.storage.page? file.volume n = p.storage.page? file.volume n

/- Some pages have become what they were to become, and nothing else has happened. -/
structure Turned (becomes : Cell → Cell) (pages : List PageId) (p q : Pool) : Prop where
  rest : q = {p with storage := q.storage, resident := q.resident, gone := q.gone}
  counts : ∀ table file, p.tables.get? table = some file →
    q.storage.pages file.volume = p.storage.pages file.volume
  beyond : SameBeyond p q
  cells : ∀ page, q.cell page = if page ∈ pages then becomes (p.cell page) else p.cell page
  thins : p.resident.Thins q.resident

namespace Turned

variable {becomes : Cell → Cell}

theorem tables (turned : Turned becomes pages p q) : q.tables = p.tables :=
  (congrArg Pool.tables turned.rest).trans rfl

theorem locks (turned : Turned becomes pages p q) : q.locks = p.locks :=
  (congrArg Pool.locks turned.rest).trans rfl

theorem trans (again : ∀ cell, becomes (becomes cell) = becomes cell)
    (first : Turned becomes pages p q) (second : Turned becomes more q r) :
    Turned becomes (pages ++ more) p r where
  rest := by
    have late := second.rest
    rw [first.rest] at late
    exact late
  counts table file found :=
    (second.counts table file (first.tables ▸ found)).trans (first.counts table file found)
  beyond table file n found large :=
    (second.beyond table file n (first.tables ▸ found) large).trans (first.beyond _ _ _ found large)
  cells page := by
    rw [second.cells, first.cells]
    by_cases early : page ∈ pages <;> by_cases late : page ∈ more <;> simp [early, late, again]
  thins := first.thins.trans second.thins

end Turned

theorem turnedNothing (becomes : Cell → Cell) (p : Pool) : Turned becomes [] p p :=
  ⟨rfl, fun _ _ _ => rfl, fun _ _ _ _ _ => rfl, fun _ => rfl, .ofKeys rfl⟩

theorem turnedSame {becomes : Cell → Cell} (same : becomes (p.cell page) = p.cell page) :
    Turned becomes [page] p p := by
  refine {turnedNothing becomes p with cells := fun other => ?_}
  by_cases own : other = page
  · rw [own, if_pos (List.mem_singleton.mpr rfl), same]
  · rw [if_neg fun there => own (List.mem_singleton.mp there)]

theorem Move.turned (apart : p.Separate) {frame : Frame} (move : Move (.save page) p q)
    (present : p.resident.get? page = some frame) (dirty : frame.page.isDirty = true)
    (resident : q.resident = p.resident.insert page frame.clean) :
    Turned Cell.written [page] p q := by
  cases move with
  | @save _ _ file _ storage here found stored =>
    cases present.symm.trans here
    have known : p.resident.contains page = true := by simp [KeyMap.contains, present]
    refine ⟨rfl, fun table other there => ?_, fun table other n there large => ?_, fun other => ?_,
      .insert _ known⟩
    · by_cases own : page.table = table
      · subst own
        cases found.symm.trans there
        exact stored.pages
      · exact (stored.others _ (apart _ _ _ _ found there own)).2
    · by_cases own : page.table = table
      · subst own
        cases found.symm.trans there
        refine (stored.page n).trans (if_neg fun same => ?_)
        exact absurd page.number.toNat_lt (Nat.not_lt.mpr (same ▸ large))
      · exact (stored.others _ (apart _ _ _ _ found there own)).1 n
    · refine Prod.ext ?_ ?_
      · change (p.resident.insert page _).get? other = _
        rw [KeyMap.getInsert]
        by_cases own : page = other
        · subst own
          simp [cell, present, Cell.written, Frame.clean]
        · have away : ¬ other = page := fun same => own same.symm
          simp [own, away, cell]
      · refine (imageSaved apart found stored other).trans ?_
        by_cases own : page = other
        · subst own
          simp [cell, present, Cell.written, dirty]
        · have away : ¬ other = page := fun same => own same.symm
          simp [own, away, cell]

theorem flushTurns (housed : p.Housed) (apart : p.Separate) (page : PageId) :
    Ends (fun _ q => Turned Cell.written [page] p q ∧ q.Housed ∧ q.Separate)
      (fun _ => True) (flushPage page p) := by
  cases present : p.resident.get? page with
  | none =>
    rw [flushAbsent present]
    refine ⟨turnedSame ?_, housed, apart⟩
    rw [cell, present]
    rfl
  | some frame =>
    cases dirty : frame.page.isDirty with
    | false =>
      rw [flushClean present dirty]
      refine ⟨turnedSame ?_, housed, apart⟩
      rw [cell, present]
      simp [Cell.written, dirty, frame.cleanUnmarked dirty]
    | true =>
      refine (flushDirty housed present dirty).mono (fun _ q saved => ?_) (fun _ _ => trivial)
      obtain ⟨move, made, _⟩ := saved
      have allowed : (Act.save page).orderly := trivial
      exact ⟨move.turned apart present dirty (congrArg Pool.resident made), housed.move move,
        apart.move (Act.orderlyOld allowed) move⟩

theorem flushTurnsEach (housed : p.Housed) (apart : p.Separate) (pages : List PageId) :
    Ends (fun _ q => Turned Cell.written pages p q ∧ q.Housed ∧ q.Separate) (fun _ => True)
      (pages.forM flushPage p) := by
  refine Ends.forEach (fun finished q => Turned Cell.written finished p q ∧ q.Housed ∧ q.Separate)
    (fun finished page q _ before => ?_) [] p ⟨turnedNothing _ p, housed, apart⟩
  obtain ⟨turned, there, still⟩ := before
  exact (flushTurns there still page).mono
    (fun _ r ended => ⟨turned.trans Cell.writtenTwice ended.1, ended.2⟩) (fun _ _ => trivial)

theorem dropTurns (p : Pool) (page : PageId) : Turned Cell.forgotten [page] p (p.drop page) := by
  refine ⟨?_, fun table file found => ?_, fun table file n found _ => ?_, fun other => ?_, ?_⟩
  · unfold drop
    split <;> rfl
  · rw [dropStorage]
  · rw [dropStorage]
  · have image : (p.drop page).image? other = p.image? other := by
      simp only [image?, dropTables, dropStorage]
    rw [cell, residentDrop, image]
    by_cases own : page = other
    · subst own
      simp [cell, Cell.forgotten]
    · have away : ¬ other = page := fun same => own same.symm
      simp [own, away, cell]
  · unfold drop
    split
    · exact .erase ..
    · exact .ofKeys rfl

theorem dropTurnsEach (pages : List PageId) (p : Pool) :
    Turned Cell.forgotten pages p (pages.foldl drop p) := by
  induction pages generalizing p with
  | nil => exact turnedNothing _ p
  | cons page rest ih => exact (dropTurns p page).trans Cell.forgottenTwice (ih (p.drop page))

/- Endings. -/

/- Those who ended have made of their pages what they were to make, and their locks are
gone. -/
structure Closed (cs : List Closing) (p q : Pool) : Prop where
  rest : q = {p with
    storage := q.storage, resident := q.resident, gone := q.gone
    locks := p.locks.releaseEach (cs.map Closing.txn)}
  counts : ∀ table file, p.tables.get? table = some file →
    q.storage.pages file.volume = p.storage.pages file.volume
  beyond : SameBeyond p q
  own : ∀ c ∈ cs, ∀ page, p.locks.access? c.txn page = some .exclusive →
    q.cell page = c.leaves (p.cell page)
  others : ∀ page, (∀ c ∈ cs, p.locks.access? c.txn page ≠ some .exclusive) →
    q.cell page = p.cell page
  thins : p.resident.Thins q.resident

theorem Turned.closed {c : Closing} (coherent : p.locks.Coherent)
    (turned : Turned c.leaves (p.locks.ownedBy c.txn) p q) :
    Closed [c] p {q with locks := (q.locks.releaseAll c.txn).2} where
  rest := by
    rw [turned.locks]
    exact congrArg (fun q : Pool => {q with locks := (p.locks.releaseAll c.txn).2}) turned.rest
  counts := turned.counts
  beyond := turned.beyond
  own := by
    intro c' there page owns
    cases List.mem_singleton.mp there
    exact (turned.cells page).trans (if_pos (coherent.memOwnedBy.mpr owns))
  others page away := (turned.cells page).trans
    (if_neg fun owned => away c (List.mem_singleton.mpr rfl) (coherent.memOwnedBy.mp owned))
  thins := turned.thins

theorem closedNothing (p : Pool) : Closed [] p p :=
  ⟨rfl, fun _ _ _ => rfl, fun _ _ _ _ _ => rfl, nofun, fun _ _ => rfl, .ofKeys rfl⟩

namespace Closed

variable {cs ds : List Closing} {c : Closing}

theorem tables (closed : Closed cs p q) : q.tables = p.tables :=
  (congrArg Pool.tables closed.rest).trans rfl

theorem locks (closed : Closed cs p q) : q.locks = p.locks.releaseEach (cs.map Closing.txn) :=
  (congrArg Pool.locks closed.rest).trans rfl

theorem next (closed : Closed cs p q) (coherent : p.locks.Coherent)
    (fresh : c.txn ∉ cs.map Closing.txn) (last : Closed [c] q r) : Closed (cs ++ [c]) p r := by
  have still (page : PageId) : q.locks.access? c.txn page = p.locks.access? c.txn page := by
    rw [closed.locks]
    exact LockTable.accessReleaseEach _ _ fresh page
  have apart {c' : Closing} (there : c' ∈ cs) : c'.txn ≠ c.txn := fun same =>
    fresh (same ▸ List.mem_map_of_mem there)
  have away {page : PageId} (free : p.locks.access? c.txn page ≠ some .exclusive) :
      r.cell page = q.cell page := last.others page fun c' there => by
    cases List.mem_singleton.mp there
    rw [still]
    exact free
  refine ⟨?_, fun table file found => ?_, fun table file n found large => ?_,
    fun c' there page owns => ?_, fun page free => ?_, closed.thins.trans last.thins⟩
  · have late := last.rest
    rw [closed.rest] at late
    rw [List.map_append, LockTable.releaseEach, List.foldl_append]
    exact late
  · exact (last.counts table file (closed.tables ▸ found)).trans (closed.counts table file found)
  · exact (last.beyond table file n (closed.tables ▸ found) large).trans
      (closed.beyond table file n found large)
  · rcases List.mem_append.mp there with early | late
    · -- the last one owns none of what the others owned
      have free : p.locks.access? c.txn page ≠ some .exclusive := by
        rw [coherent.alone owns (apart early).symm]
        nofun
      rw [away free, closed.own c' early page owns]
    · cases List.mem_singleton.mp late
      rw [last.own c late page ((still page).trans owns), closed.others page fun c' early => ?_]
      rw [coherent.alone owns (apart early)]
      nofun
  · have others := closed.others page fun c' early => free c' (List.mem_append_left _ early)
    exact (away (free c (List.mem_append_right _ (List.mem_singleton.mpr rfl)))).trans others

theorem cells (mine : Closed cs p q) (theirs : Closed ds p r) (perm : cs.Perm ds)
    (page : PageId) : q.cell page = r.cell page := by
  by_cases owned : ∃ c ∈ cs, p.locks.access? c.txn page = some .exclusive
  · obtain ⟨c, there, owns⟩ := owned
    rw [mine.own c there page owns, theirs.own c (perm.mem_iff.mp there) page owns]
  · have free : ∀ c ∈ cs, p.locks.access? c.txn page ≠ some .exclusive :=
      fun c there owns => owned ⟨c, there, owns⟩
    rw [mine.others page free, theirs.others page fun c there => free c (perm.mem_iff.mpr there)]

theorem same (mine : Closed cs p q) (theirs : Closed ds p r) (perm : cs.Perm ds) :
    r = {q with storage := r.storage, gone := r.gone} := by
  have resident : q.resident = r.resident :=
    mine.thins.unique theirs.thins fun page => congrArg Prod.fst (mine.cells theirs perm page)
  have locks : p.locks.releaseEach (cs.map Closing.txn) =
      p.locks.releaseEach (ds.map Closing.txn) := LockTable.releaseEachPerm _ (perm.map _)
  have left := mine.rest
  have right := theirs.rest
  rw [← locks, ← resident] at right
  rw [right]
  conv_rhs => rw [left]

theorem samePages (mine : Closed cs p q) (theirs : Closed ds p r) (perm : cs.Perm ds)
    {table : TableId} {file : HeapFile} (found : p.tables.get? table = some file) (n : Nat) :
    r.storage.page? file.volume n = q.storage.page? file.volume n := by
  by_cases small : n < UInt32.size
  · have images := congrArg Prod.snd (mine.cells theirs perm ⟨table, .ofNat n⟩)
    have number : (UInt32.ofNat n).toNat = n := UInt32.toNat_ofNat_of_lt' small
    simpa only [cell, image?, mine.tables, theirs.tables, found, Option.bind_some, number,
      eq_comm] using images
  · have large : UInt32.size ≤ n := Nat.le_of_not_lt small
    rw [mine.beyond table file n found large, theirs.beyond table file n found large]

end Closed

structure Closable (p : Pool) : Prop extends Guarded p where
  writes : p.Spared .write

theorem commitCloses (closable : p.Closable) (txn : TxnId) :
    Ends (fun _ q => Closed [⟨txn, true⟩] p q ∧ q.Closable) (fun _ => False) (commit txn p) := by
  have housed := closable.toHoused
  refine ((flushEach housed (p.locks.ownedBy txn)).both
    (flushTurnsEach housed closable.apart (p.locks.ownedBy txn))).andThen (fun _ m ended => ?_)
    (fun _ lost => lost.1.2 closable.writes)
  obtain ⟨⟨saved, clean⟩, turned⟩ := ended
  have there := closable.toGuarded.moves (fun _ => Act.savesOrderly) saved
  have writes : m.Spared .write := closable.writes.before saved
  have done := turned.1.closed (c := ⟨txn, true⟩) closable.coherent
  exact ⟨done, there.giveAll (saved.saved.2.1 ▸ clean) .giveAll, writes⟩

theorem abortCloses (closable : p.Closable) (txn : TxnId) :
    Ends (fun _ q => Closed [⟨txn, false⟩] p q ∧ q.Closable) (fun _ => False) (abort txn p) := by
  have forgot := forgetAll (p.locks.ownedBy txn) p
  have there := closable.toGuarded.moves (fun _ => Act.forgetsOrderly) forgot.moves
  have turned := dropTurnsEach (p.locks.ownedBy txn) p
  have done := turned.closed (c := ⟨txn, false⟩) closable.coherent
  refine ⟨done, there.giveAll (fun page mine frame present => ?_) .giveAll,
    fun table file found => ?_⟩
  · rw [forgot.locks] at mine
    rw [forgot.resident, if_pos mine] at present
    cases present
  · change (List.foldl drop p _).storage.Spares file.volume .write
    rw [forgot.storage]
    exact closable.writes table file (forgot.tables ▸ found)

theorem closingCloses (closable : p.Closable) (c : Closing) :
    Ends (fun _ q => Closed [c] p q ∧ q.Closable) (fun _ => False) (c.poolWork p) := by
  obtain ⟨txn, commits⟩ := c
  cases commits with
  | true => exact commitCloses closable txn
  | false => exact abortCloses closable txn

end Pool

namespace Engine

variable {e e' f : Engine} {cs ds : List Closing} {c : Closing} {txn : TxnId}

theorem finishRunning {work : Instant Pool Unit} {status : Status} (runs : e.Runs txn) :
    finish txn work status e =
      (onPool work >>= fun _ => modify fun e => {e with ledger := e.ledger.mark txn status}) e := by
  have running : e.ledger.checkRunning txn = .ok () := by
    rw [Ledger.checkRunning, show e.ledger.status? txn = some .running from runs]
  change (demand Engine (e.ledger.checkRunning txn) >>= fun _ => _) e = _
  rw [running]
  exact okThen rfl _

theorem finishRuns {work : Instant Pool Unit} {status : Status} {q : Pool} (runs : e.Runs txn)
    (worked : work e.pool = .ok () q) : finish txn work status e =
      .ok () {e with pool := q, ledger := e.ledger.mark txn status} := by
  have made : onPool work e = .ok () {e with pool := q} := by
    change Part.outcome poolPart e (work e.pool) = _
    rw [worked]
    rfl
  rw [finishRunning runs, okThen made]
  rfl

theorem closingRuns {q : Pool} (runs : e.Runs c.txn) (worked : c.poolWork e.pool = .ok () q) :
    c.work e = .ok () {e with pool := q, ledger := e.ledger.mark c.txn c.status} := by
  obtain ⟨txn, commits⟩ := c
  cases commits with
  | true => exact finishRuns runs worked
  | false => exact finishRuns runs worked

structure Closed (cs : List Closing) (e e' : Engine) : Prop where
  pool : Pool.Closed cs e.pool e'.pool
  rest : e' = {e with pool := e'.pool, ledger := e'.ledger}
  number : e'.ledger.nextTxn = e.ledger.nextTxn
  thins : e.ledger.statuses.Thins e'.ledger.statuses
  own : ∀ c ∈ cs, e'.ledger.status? c.txn = some c.status
  others : ∀ txn, txn ∉ cs.map Closing.txn → e'.ledger.status? txn = e.ledger.status? txn

theorem closedNothing (e : Engine) : Closed [] e e :=
  ⟨Pool.closedNothing e.pool, rfl, rfl, .ofKeys rfl, nofun, fun _ _ => rfl⟩

namespace Closed

theorem next (closed : Closed cs e e') (coherent : e.pool.locks.Coherent)
    (fresh : c.txn ∉ cs.map Closing.txn) (runs : e.Runs c.txn) {q : Pool}
    (last : Pool.Closed [c] e'.pool q) :
    Closed (cs ++ [c]) e {e' with pool := q, ledger := e'.ledger.mark c.txn c.status} where
  pool := closed.pool.next coherent fresh last
  rest := by
    conv_lhs => rw [closed.rest]
  number := closed.number
  thins := by
    refine closed.thins.trans (.insert _ ?_)
    have still : e'.ledger.statuses.get? c.txn = some .running := (closed.others _ fresh).trans runs
    simp [KeyMap.contains, still]
  own := by
    intro c' there
    rw [Ledger.statusMark]
    rcases List.mem_append.mp there with early | late
    · have apart : c.txn ≠ c'.txn := fun same => fresh (same ▸ List.mem_map_of_mem early)
      rw [if_neg apart]
      exact closed.own c' early
    · rw [List.mem_singleton.mp late, if_pos rfl]
  others := by
    intro txn away
    rw [List.map_append, List.mem_append, not_or] at away
    rw [Ledger.statusMark, if_neg fun same => away.2 (List.mem_singleton.mpr same.symm)]
    exact closed.others txn away.1

theorem sameLedger (mine : Closed cs e e') (theirs : Closed ds e f) (perm : cs.Perm ds) :
    f.ledger = e'.ledger := by
  have statuses : f.ledger.statuses = e'.ledger.statuses := by
    refine theirs.thins.unique mine.thins fun txn => ?_
    by_cases there : txn ∈ cs.map Closing.txn
    · obtain ⟨c, ends, rfl⟩ := List.mem_map.mp there
      exact (theirs.own c (perm.mem_iff.mp ends)).trans (mine.own c ends).symm
    · have away : txn ∉ ds.map Closing.txn := fun other => there ((perm.map _).mem_iff.mpr other)
      exact (theirs.others txn away).trans (mine.others txn there).symm
  have number := theirs.number.trans mine.number.symm
  cases left : f.ledger
  cases right : e'.ledger
  rw [left, right] at number statuses
  exact congrArg₂ Ledger.mk number statuses

end Closed

theorem closeEach (closable : e.pool.Closable) (todo : List Closing) (finished : List Closing)
    {e' : Engine} (closed : Closed finished e e') (closable' : e'.pool.Closable)
    (apart : ((finished ++ todo).map Closing.txn).Nodup) (runs : ∀ c ∈ todo, e.Runs c.txn) :
    ∃ e'', todo.forM Closing.work e' = .ok () e'' ∧ Closed (finished ++ todo) e e'' := by
  -- on those who still have to end; each of them runs until it is their turn
  induction todo generalizing finished e' with
  | nil => exact ⟨e', rfl, by rwa [List.append_nil]⟩
  | cons c rest ih =>
    have fresh : c.txn ∉ finished.map Closing.txn := fun there => by
      rw [List.map_append, List.nodup_append] at apart
      exact apart.2.2 c.txn there c.txn (List.mem_map_of_mem List.mem_cons_self) rfl
    have running : e'.Runs c.txn :=
      (closed.others c.txn fresh).trans (runs c List.mem_cons_self)
    obtain ⟨_, q, worked, ended, closable''⟩ := (Pool.closingCloses closable' c).sure
    have later := closed.next closable.coherent fresh (runs c List.mem_cons_self) ended
    rw [List.append_cons] at apart ⊢
    obtain ⟨e'', done, whole⟩ := ih (finished ++ [c]) later closable'' apart
      fun c' there => runs c' (List.mem_cons_of_mem _ there)
    exact ⟨e'', (okThen (closingRuns running worked) _).trans done, whole⟩

/- The same but for what nobody is told: how volumes came to hold what they hold, and the
frames that have left the cache. -/
structure Same (e f : Engine) : Prop where
  rest : f = {e with pool := {e.pool with storage := f.pool.storage, gone := f.pool.gone}}
  pages : ∀ table file, e.pool.tables.get? table = some file →
    f.pool.storage.pages file.volume = e.pool.storage.pages file.volume ∧
      ∀ n, f.pool.storage.page? file.volume n = e.pool.storage.page? file.volume n

variable {t : Traffic Engine Operation Response}

/-- Transactions that run may be ended in any order, some by commits and some by aborts: the
volumes, the cache, the locks and the ledger are the same in the end. -/
theorem endingsCommute (reached : Reached t) (writes : t.state.pool.Spared .write)
    (apart : (cs.map Closing.txn).Nodup) (runs : ∀ c ∈ cs, t.state.Runs c.txn)
    (perm : cs.Perm ds) : ∃ e f, cs.forM Closing.work t.state = .ok () e ∧
      ds.forM Closing.work t.state = .ok () f ∧ Same e f := by
  have guarded : t.state.pool.Guarded := (reached.orderly []).holds.1
  have closable : t.state.pool.Closable := ⟨guarded, writes⟩
  obtain ⟨e, done, mine⟩ := closeEach closable cs [] (closedNothing _) closable apart runs
  obtain ⟨f, done', theirs⟩ := closeEach closable ds [] (closedNothing _) closable
    ((perm.map _).nodup_iff.mp apart) fun c there => runs c (perm.mem_iff.mpr there)
  refine ⟨e, f, done, done', ?_, fun table file found => ?_⟩
  · have pools := mine.pool.same theirs.pool perm
    have ledgers := mine.sameLedger theirs perm
    have left := mine.rest
    have right := theirs.rest
    rw [ledgers, pools] at right
    rw [right]
    conv_rhs => rw [left]
  · have known : t.state.pool.tables.get? table = some file := mine.pool.tables ▸ found
    exact ⟨(theirs.pool.counts table file known).trans (mine.pool.counts table file known).symm,
      mine.pool.samePages theirs.pool perm known⟩

/- Two transactions share a page that is full, and each of them fills one of its own. -/

def sampleShared : History Operation Response × Traffic Engine Operation Response :=
  (steady Anything).next (.request (.scan (some 2) 1))
    ((steady Anything).next (.request (.scan (some 1) 1))
      ((steady Anything).next (.request .begin)
        ((steady Anything).next (.request .begin) ([], ⟨sampleTables, []⟩))))

def sampleFilling : History Operation Response × Traffic Engine Operation Response :=
  (steady Anything).next (.request (.insert 2 2 [5]))
    ((steady Anything).next (.request (.insert 1 1 [9])) sampleShared)

theorem sampleFillingReached : Reached sampleFilling.2 := by
  have begun := Reached.asked ([], _) (.unused sampleTablesUnused) .begin rfl
  have shared := Reached.asked _ (.asked _ (.asked _ begun .begin rfl) (.scan (some 1) 1) rfl)
    (.scan (some 2) 1) rfl
  exact .asked _ (.asked _ shared (.insert 1 1 [9]) rfl) (.insert 2 2 [5]) rfl

theorem sampleFillingSpared : sampleFilling.2.state.pool.Spared .write := by
  intro table file found
  obtain rfl | rfl := sampleKnown (found : sampleTables.pool.tables.get? table = some file)
  · exact Storage.sparesAll rfl rfl
  · exact Storage.sparesAll rfl rfl

theorem sampleEndingsCommute : Reached sampleFilling.2 ∧
    sampleFilling.2.state.pool.locks.sharers.of ⟨1, 0⟩ = [1, 2] ∧
    sampleFilling.2.state.pool.locks.ownedBy 1 = [⟨1, 1⟩] ∧
    sampleFilling.2.state.pool.locks.ownedBy 2 = [⟨2, 0⟩] ∧
    ∃ e f, [⟨1, true⟩, ⟨2, false⟩].forM Closing.work sampleFilling.2.state = .ok () e ∧
      [⟨2, false⟩, ⟨1, true⟩].forM Closing.work sampleFilling.2.state = .ok () f ∧ Same e f := by
  refine ⟨sampleFillingReached, rfl, rfl, rfl, ?_⟩
  refine endingsCommute sampleFillingReached sampleFillingSpared (by decide) (fun c there => ?_)
    (.swap ..)
  obtain rfl | rfl := List.mem_pair.mp there
  · rfl
  · rfl

end Engine
end PagedHeap
