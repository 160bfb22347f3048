import PagedHeap.Proofs.CacheLaws
import PagedHeap.Proofs.Guards
import PagedHeap.Proofs.LockEffects
import PagedHeap.Proofs.Searches

/-! What an insert that is left alone does to the locks. The pages it has only looked at are
locked as before when it ends; one that succeeds has made sure of the page of its record, and
one that fails leaves a single lock behind, on a page that was not locked or, raised, on the one
that the file has grown by. -/
namespace PagedHeap

namespace LockTable

variable {t u v : LockTable} {txn : TxnId} {page : PageId} {access : Access}

/- One transaction's locks, before and after. -/

def Kept (txn : TxnId) (t u : LockTable) : Prop :=
  ∀ page, u.access? txn page = t.access? txn page

def Set (txn : TxnId) (page : PageId) (access : Access) (t u : LockTable) : Prop :=
  ∀ there, u.access? txn there = if page = there then some access else t.access? txn there

def OneMore (txn : TxnId) (t u : LockTable) : Prop :=
  Kept txn t u ∨ ∃ page access, t.access? txn page = none ∧ Set txn page access t u

theorem Kept.refl (txn : TxnId) (t : LockTable) : Kept txn t t := fun _ => rfl

theorem Kept.trans (first : Kept txn t u) (second : Kept txn u v) : Kept txn t v :=
  fun page => (second page).trans (first page)

theorem Kept.set (first : Kept txn t u) (second : Set txn page access u v) :
    Set txn page access t v := fun there => by rw [second there, first there]

theorem Kept.oneMore (first : Kept txn t u) (second : OneMore txn u v) : OneMore txn t v := by
  rcases second with kept | ⟨page, access, missing, set⟩
  · exact .inl (first.trans kept)
  · exact .inr ⟨page, access, (first page).symm.trans missing, first.set set⟩

theorem Set.again {other : Access} (first : Set txn page other t u)
    (second : Set txn page access u v) : Set txn page access t v := fun there => by
  rw [second there, first there]
  split <;> rfl

theorem Set.kept (held : t.access? txn page = some access) (set : Set txn page access t u) :
    Kept txn t u := fun there => by
  rw [set there]
  split
  · rename_i same
    rw [← same, held]
  · rfl

theorem Set.request (granted : (t.request ⟨txn, page, access⟩).1 = true) :
    Set txn page (if t.access? txn page = some .exclusive then .exclusive else access) t
      (t.request ⟨txn, page, access⟩).2 := fun there => by
  rw [accessRequest granted]
  by_cases same : page = there
  · subst same
    simp only [and_self, if_true]
  · simp only [same, and_false, if_false]

theorem Set.own (granted : (t.request ⟨txn, page, .exclusive⟩).1 = true) :
    Set txn page .exclusive t (t.request ⟨txn, page, .exclusive⟩).2 := by
  have set := Set.request granted
  rwa [ite_self] at set

theorem Set.release (missing : t.access? txn page = none) (set : Set txn page access t u) :
    Kept txn t (u.release txn page) := fun there => by
  rw [accessRelease, set there]
  by_cases same : page = there
  · subst same
    simp only [and_self, if_true, missing]
  · simp only [same, and_false, if_false]

theorem Set.looked
    (set : Set txn page
      (if t.access? txn page = some .exclusive then .exclusive else .shared) t u) :
    OneMore txn t u := by
  cases held : t.access? txn page with
  | none => exact .inr ⟨page, _, held, set⟩
  | some access =>
    refine .inl (set.kept ?_)
    cases access <;> simp [held]

end LockTable

namespace Pool

open LockTable (Kept OneMore)

variable {p q r : Pool} {file : HeapFile} {txn : TxnId} {page home : PageId} {access : Access}
  {data : Bytes}

theorem lockEnds (wanted : Lock) (p : Pool) :
    Ends (fun _ q => (p.locks.request wanted).1 = true ∧
        q = {p with locks := (p.locks.request wanted).2})
      (· = p) ((lock wanted).settled p) := by
  rw [lockSettled]
  split
  · rename_i granted
    exact ⟨granted, rfl⟩
  · exact rfl

theorem getPageLocks (p : Pool) (txn : TxnId) (page : PageId) (access : Access) :
    Ends (fun _ q => (p.locks.request ⟨txn, page, access⟩).1 = true ∧
        q.locks = (p.locks.request ⟨txn, page, access⟩).2)
      (fun q => q.locks = p.locks ∨ (p.locks.request ⟨txn, page, access⟩).1 = true ∧
        q.locks = (p.locks.request ⟨txn, page, access⟩).2)
      ((getPage txn page access).settled p) := by
  simp only [getPage, Activity.settledBind, Activity.settledLift]
  refine (lockEnds _ p).andThen (fun _ q taken => ?_) (fun q same => .inl (same ▸ rfl))
  obtain ⟨granted, rfl⟩ := taken
  exact (fetchKeeps page _).mono (fun _ _ same => ⟨granted, same⟩)
    (fun _ same => .inr ⟨granted, same⟩)

/- A page that is in the cache only takes its lock. -/

theorem fetchPresent {frame : Frame} (present : p.resident.get? page = some frame) :
    fetch page p = .ok frame p := by
  unfold fetch
  rw [getThen, present]
  rfl

theorem getPagePresent {frame : Frame} (present : p.resident.get? page = some frame) :
    Ends (fun f q => f = frame ∧ (p.locks.request ⟨txn, page, access⟩).1 = true ∧
        q = {p with locks := (p.locks.request ⟨txn, page, access⟩).2})
      (· = p) ((getPage txn page access).settled p) := by
  simp only [getPage, Activity.settledBind, Activity.settledLift]
  refine (lockEnds _ p).andThen (fun _ q taken => ?_) (fun _ same => same)
  obtain ⟨granted, rfl⟩ := taken
  have fetched : fetch page {p with locks := (p.locks.request ⟨txn, page, access⟩).2} = _ :=
    fetchPresent present
  rw [fetched]
  exact ⟨rfl, granted, rfl⟩

theorem getPageGranted {frame : Frame} (present : p.resident.get? page = some frame)
    (granted : (p.locks.request ⟨txn, page, access⟩).1 = true) :
    (getPage txn page access).settled p =
      .ok frame {p with locks := (p.locks.request ⟨txn, page, access⟩).2} := by
  simp only [getPage, Activity.settledBind, Activity.settledLift]
  rw [okThen ((lockSettled _ p).trans (if_pos granted))]
  exact fetchPresent present

/- A page with room has been looked at, and is locked and in the cache since. -/
structure Roomy (txn : TxnId) (p : Pool) (home : PageId) (q : Pool) : Prop where
  looked : p.locks.Set txn home
    (if p.locks.access? txn home = some .exclusive then .exclusive else .shared) q.locks
  here : ∃ frame, q.resident.get? home = some frame ∧ frame.page.hasRoom = true

theorem firstWithRoomLocks (housed : p.Housed) (file : HeapFile) (numbers : List UInt32) :
    Ends (fun page? q => Moves (Act.probes (some txn)) p q ∧ match page? with
        | none => Kept txn p.locks q.locks
        | some home => home.table = file.table ∧ Roomy txn p home q)
      (fun q => Moves (Act.probes (some txn)) p q ∧ OneMore txn p.locks q.locks)
      ((file.firstWithRoom txn numbers).settled p) := by
  induction numbers generalizing p with
  | nil => exact ⟨.refl, .refl txn _⟩
  | cons number rest ih =>
    simp only [HeapFile.firstWithRoom, Activity.settledBind, Activity.settledLift,
      Activity.settledIte]
    have asked : Ends (fun held q => q = p ∧ held = p.locks.holds txn ⟨file.table, number⟩)
        (fun _ => False) (holds txn ⟨file.table, number⟩ p) := ⟨rfl, rfl⟩
    refine asked.andThen (fun held q seen => ?_) (fun _ none => none.elim)
    obtain ⟨rfl, rfl⟩ := seen
    refine ((getPageSettles housed txn ⟨file.table, number⟩ .shared).both
      (getPageLocks q txn ⟨file.table, number⟩ .shared)).andThen (fun frame r got => ?_)
      (fun r lost => ?_)
    · obtain ⟨⟨moves, present, _⟩, granted, taken⟩ := got
      have looked := LockTable.Set.request granted
      rw [← taken] at looked
      split
      · rename_i room
        exact ⟨moves, rfl, looked, frame, present, room⟩
      · have given : Ends (fun _ s => Moves (Act.probes (some txn)) q s ∧
            Kept txn q.locks s.locks) (fun _ => False)
            (releaseProbe (q.locks.holds txn ⟨file.table, number⟩) txn ⟨file.table, number⟩ r) := by
          cases missing : q.locks.access? txn ⟨file.table, number⟩ with
          | none =>
            rw [missing] at looked
            have own : Act.probes (some txn) (.unprobe txn ⟨file.table, number⟩) := rfl
            have shared := looked ⟨file.table, number⟩
            rw [if_pos rfl] at shared
            simp only [LockTable.holds, missing]
            exact ⟨moves.trans (.one own (.unprobe shared)), looked.release missing⟩
          | some access =>
            simp only [LockTable.holds, missing]
            refine ⟨moves, looked.kept ?_⟩
            cases access <;> simp [missing]
        refine given.andThen (fun _ s left => ?_) (fun _ none => none.elim)
        refine (ih (housed.moves left.1)).mono (fun page? t ended => ⟨left.1.trans ended.1, ?_⟩)
          (fun t lost => ⟨left.1.trans lost.1, left.2.oneMore lost.2⟩)
        obtain ⟨_, ended⟩ := ended
        cases page? with
        | none => exact left.2.trans ended
        | some home =>
          obtain ⟨own, looked, here⟩ := ended
          rw [left.2 home] at looked
          exact ⟨own, left.2.set looked, here⟩
    · obtain ⟨moves, same | ⟨granted, taken⟩⟩ := lost
      · exact ⟨moves, .inl (same ▸ .refl txn _)⟩
      · exact ⟨moves, taken ▸ (LockTable.Set.request granted).looked⟩

inductive Searched (txn : TxnId) (table : TableId) (p : Pool) : Pool → Prop
  | only {q : Pool} (moves : Moves (Act.probes (some txn)) p q) : Searched txn table p q
  | added {file : HeapFile} {a b q : Pool} (known : p.Knows file) (own : file.table = table)
      (early : Moves (Act.probes (some txn)) p a) (extended : Move (.extend file.table) a b)
      (late : Moves (Act.probes (some txn)) b q) : Searched txn table p q

theorem Searched.then {table : TableId} (searched : Searched txn table p q)
    (moves : Moves (Act.probes (some txn)) q r) : Searched txn table p r := by
  cases searched with
  | only early => exact .only (early.trans moves)
  | added known own early extended late => exact .added known own early extended (late.trans moves)

inductive Placed (txn : TxnId) (p : Pool) (file : HeapFile) : PageId → Pool → Prop
  | roomy {home : PageId} {q : Pool} (own : home.table = file.table)
      (roomy : Roomy txn p home q) : Placed txn p file home q
  | fresh {q : Pool} (kept : Kept txn p.locks q.locks)
      (blank : q.Copies ⟨file.table, .ofNat (p.storage.pages file.volume)⟩
        (· = file.layout.blankImage)) :
      Placed txn p file ⟨file.table, .ofNat (p.storage.pages file.volume)⟩ q

theorem pageWithRoomLocks (housed : p.Housed) (known : p.Knows file)
    (few : p.storage.pages file.volume < UInt32.size)
    (blank : p.storage.Spares file.volume .fill) :
    Ends (fun home q => q.Housed ∧ q.Knows file ∧ Placed txn p file home q ∧
        Searched txn file.table p q)
      (fun q => OneMore txn p.locks q.locks ∧ Searched txn file.table p q)
      ((file.pageWithRoom txn).settled p) := by
  simp only [HeapFile.pageWithRoom, Activity.settledBind, Activity.settledLift]
  have counted : Ends (fun _ q => Moves (Act.probes (some txn)) p q ∧ q.locks = p.locks)
      (fun q => OneMore txn p.locks q.locks ∧ Searched txn file.table p q)
      (onStorage file.count p) :=
    Ends.inPart ((Storage.countEnds p.storage file.volume).mono
      (fun _ _ seen => ⟨.aside trivial seen.1, rfl⟩)
      (fun _ failed => ⟨.inl (.refl txn _), .only (.aside trivial failed.1)⟩))
  refine counted.andThen (fun count q seen => ?_) (fun _ lost => lost)
  obtain ⟨moves, same⟩ := seen
  refine (firstWithRoomLocks (housed.moves moves) file _).andThen (fun page? r ended => ?_)
    (fun _ lost => ⟨same ▸ lost.2, .only (moves.trans lost.1)⟩)
  obtain ⟨further, looked⟩ := ended
  have early := moves.trans further
  have there := housed.moves early
  have still := known.later early.grew
  cases page? with
  | some home =>
    obtain ⟨own, roomy⟩ := looked
    exact ⟨there, still, .roomy own ⟨same ▸ roomy.looked, roomy.here⟩, .only early⟩
  | none =>
    have kept : Kept txn p.locks r.locks := same ▸ looked
    have observed := early.observed
    refine Ends.inPart ((HeapFile.allocateEnds file r.storage).mono (fun page storage made => ?_)
      (fun storage seen => ⟨.inl kept, .only (early.trans (.aside trivial seen))⟩))
    obtain ⟨rfl, enlarged⟩ := made
    have extended : Move (.extend file.table) r {r with storage} := .extend still enlarged
    have size : r.storage.pageSize file.volume = file.layout.pageSize := there.sized _ _ still
    obtain ⟨image, grown, zeroes⟩ :=
      enlarged.fresh (size ▸ file.layout.sizePositive) (observed.pages _ ▸ few)
    have copies := there.freshCopies still (observed.pages _ ▸ few) grown
    rw [zeroes (observed.spares _ _ blank), size] at copies
    rw [observed.pages] at copies ⊢
    exact ⟨there.move extended, still.later extended.grew, .fresh kept copies,
      .added known rfl early extended .refl⟩

theorem fillSure (housed : p.Housed) {frame : Frame} (present : p.resident.get? page = some frame)
    (owns : p.locks.access? txn page = some .exclusive) (room : frame.page.hasRoom = true)
    (takes : frame.page.layout.Takes data) :
    Ends (fun x q => q.locks = p.locks ∧ Pinned txn x.2 q ∧ x.1.page = page) (fun _ => False)
      (HeapFile.fill txn data frame p) := by
  obtain ⟨rid, copy, stored⟩ := Page.insertFits takes room
  have made : HeapFile.fill txn data frame p = .ok (rid, {frame with page := copy.markDirty txn})
      (p.update {frame with page := copy.markDirty txn}) := by
    change (demand Pool (frame.page.insert data) >>= _) p = _
    rw [stored]
    rfl
  have ended := fillEnds housed data present owns
  rw [made] at ended ⊢
  obtain ⟨_, pinned, here⟩ := ended
  exact ⟨p.locksUpdate _, pinned, here⟩

/- What a failed insert leaves of the locks of its transaction. -/
inductive Botched (txn : TxnId) (p : Pool) (table : TableId) (q : Pool) : Prop
  | more (more : OneMore txn p.locks q.locks) : Botched txn p table q
  | raised (file : HeapFile) (known : p.tables.get? table = some file)
      (shared : p.locks.access? txn ⟨table, .ofNat (p.storage.pages file.volume)⟩ = some .shared)
      (set : p.locks.Set txn ⟨table, .ofNat (p.storage.pages file.volume)⟩ .exclusive q.locks) :
      Botched txn p table q

/- The page is in the cache since it was looked at, so only its lock can be refused. -/
theorem ownRoomy (housed : q.Housed) (known : q.Knows file) (own : home.table = file.table)
    (roomy : Roomy txn p home q) (takes : file.layout.Takes data)
    {again : Activity Pool (Rid × Frame)} :
    Ends (fun x r => p.locks.Set txn x.1.page .exclusive r.locks ∧ Pinned txn x.2 r)
      (fun r => OneMore txn p.locks r.locks ∧ r = q)
      (((getPage txn home .exclusive).settled >>= fun frame =>
        (if frame.page.hasRoom then (HeapFile.fill txn data frame) else again.settled)) q) := by
  obtain ⟨frame, present, room⟩ := roomy.here
  refine (getPagePresent present).andThen (fun f r got => ?_)
    (fun r same => ⟨same ▸ roomy.looked.looked, same⟩)
  obtain ⟨rfl, granted, rfl⟩ := got
  rw [if_pos room]
  have set := roomy.looked.again (LockTable.Set.own granted)
  have there := housed.move (.take granted)
  obtain ⟨its, found, _, layout, _⟩ := housed.keeps _ _ present
  rw [own] at found
  obtain rfl : file = its := Option.some.inj (known.symm.trans found)
  refine (fillSure there present ((set home).trans (if_pos rfl)) room (layout ▸ takes)).mono
    (fun x r filled => ?_) (fun _ none => none.elim)
  obtain ⟨same, pinned, here⟩ := filled
  exact ⟨here ▸ same ▸ set, pinned⟩

theorem insertWithinLocks (housed : p.Housed) (known : p.Knows file)
    (few : p.storage.pages file.volume < UInt32.size) (blank : p.storage.Spares file.volume .fill)
    (takes : file.layout.Takes data) (tries : Nat) :
    Ends (fun x q => p.locks.Set txn x.1.page .exclusive q.locks ∧ Pinned txn x.2 q)
      (fun q => Botched txn p file.table q ∧ Searched txn file.table p q)
      ((file.insertWithin txn data (tries + 1)).settled p) := by
  simp only [HeapFile.insertWithin, Activity.settledBind, Activity.settledIte,
    Activity.settledLift]
  refine (pageWithRoomLocks housed known few blank).andThen (fun home q placed => ?_)
    (fun _ lost => ⟨.more lost.1, lost.2⟩)
  obtain ⟨there, still, placed, searched⟩ := placed
  cases placed with
  | roomy own roomy =>
    exact (ownRoomy there still own roomy takes).mono (fun _ _ set => set)
      (fun _ lost => ⟨.more lost.1, lost.2 ▸ searched⟩)
  | fresh kept blank =>
    refine ((getPageSettles there txn _ .exclusive).both (getPageLocks q txn _ .exclusive)).andThen
      (fun frame r got => ?_) (fun r lost => ?_)
    · obtain ⟨⟨moves, present, owns⟩, granted, taken⟩ := got
      have here := there.moves moves
      obtain ⟨its, found, _, layout, _⟩ := here.keeps _ _ present
      obtain rfl : file = its := Option.some.inj ((still.later moves.grew).symm.trans found)
      have zeroes := blank.moves moves _ (.inr ⟨frame, present, rfl⟩)
      have roomy : frame.page.hasRoom = true := Page.blankRoomy (layout ▸ zeroes)
      rw [if_pos roomy]
      have set := kept.set (LockTable.Set.own granted)
      rw [ite_self] at owns
      refine (fillSure here present owns roomy (layout ▸ takes)).mono
        (fun x r filled => ?_) (fun _ none => none.elim)
      obtain ⟨same, pinned, place⟩ := filled
      exact ⟨place ▸ same ▸ taken ▸ set, pinned⟩
    · obtain ⟨moves, same | ⟨granted, taken⟩⟩ := lost <;> refine ⟨?_, searched.then moves⟩
      · exact .more (.inl (same ▸ kept))
      · have set := kept.set (LockTable.Set.own granted)
        rw [← taken] at set
        cases held : p.locks.access? txn ⟨file.table, .ofNat (p.storage.pages file.volume)⟩ with
        | none => exact .more (.inr ⟨_, _, held, set⟩)
        | some access =>
          cases access with
          | exclusive => exact .more (.inl (set.kept held))
          | shared => exact .raised file known held set

theorem insertLocks (housed : p.Housed) (room : p.Room) (blank : p.Spared .fill) (txn : TxnId)
    (table : TableId) (data : Bytes) :
    Ends (fun rid q => p.locks.Set txn rid.page .exclusive q.locks)
      (fun q => Botched txn p table q ∧ Searched txn table p q)
      ((insert txn table data).settled p) := by
  simp only [insert, HeapFile.insert, Activity.settledBind, Activity.settledLift]
  have idle : Botched txn p table p ∧ Searched txn table p p :=
    ⟨.more (.inl (.refl txn _)), .only .refl⟩
  refine (tableEnds p table).andThen (fun file q here => ?_) (fun q lost => lost.1 ▸ idle)
  obtain ⟨rfl, found⟩ := here
  obtain rfl := housed.named table file found
  have placed : Ends (fun x r => q.locks.Set txn x.1.page .exclusive r.locks ∧ Pinned txn x.2 r)
      (fun r => Botched txn q file.table r ∧ Searched txn file.table q r)
      ((demand Pool (file.checkWidth data) >>= fun _ =>
        (file.insertWithin txn data UInt32.size).settled) q) := by
    have width : Ends (fun _ r => r = q ∧ file.layout.Takes data)
        (fun r => Botched txn q file.table r ∧ Searched txn file.table q r)
        (demand Pool (file.checkWidth data) q) :=
      .demand (fun _ fits => ⟨rfl, by
        unfold HeapFile.checkWidth at fits
        split at fits
        · assumption
        · cases fits⟩) idle
    refine width.andThen (fun _ r fits => ?_) (fun _ lost => lost)
    obtain ⟨rfl, fits⟩ := fits
    obtain ⟨tries, count⟩ : ∃ tries, UInt32.size = tries + 1 := ⟨_, rfl⟩
    rw [count]
    exact insertWithinLocks housed found (room _ _ found) (blank _ _ found) fits tries
  refine placed.andThen (fun x r filled => ?_) (fun _ lost => lost)
  obtain ⟨set, pinned⟩ := filled
  change Ends _ _ ((pin txn x.2 >>= fun _ => pure x.1) r)
  rw [okThen (pinSame pinned)]
  exact set

/-- The locks around an insert that nobody disturbs, whatever the cache and the files are like, and
whether or not tables share them.
With success the page of the record is owned and no other lock has changed; without it, one page
at most that was not locked has become so, or else the lock on the page that the file has grown by
is raised. The locks of all others are as they were. -/
theorem insertLocksOnlyItsPage {config : Config} {storage : Storage} {draws : List Nat}
    {h : History PoolCall Unit} {t : Traffic Pool PoolCall Unit}
    (run : sharing.Run {ofConfig config storage with draws} h t) (room : t.state.Room)
    (blank : t.state.Spared .fill) (txn : TxnId) (table : TableId) (data : Bytes) :
    Ends (fun rid q => t.state.locks.Set txn rid.page .exclusive q.locks ∧
        ∀ other, other ≠ txn → q.locks.heldBy other = t.state.locks.heldBy other)
      (fun q => Botched txn t.state table q ∧
        ∀ other, other ≠ txn → q.locks.heldBy other = t.state.locks.heldBy other)
      ((insert txn table data).settled t.state) := by
  have own := insertLocks (sharingSound run).1.toHoused room blank txn table data
  have minded := (insertActsFor txn table data t.state).settle (.refl _) (fun _ => trivial)
    (fun _ _ _ => .trans)
  have apart {other : TxnId} (away : other ≠ txn) : some txn ≠ some other := fun same =>
    away (Option.some.inj same).symm
  exact (own.both minded).mono
    (fun _ _ both => ⟨both.1, fun other away => both.2 other (apart away)⟩)
    (fun _ both => ⟨both.1.1, fun other away => both.2 other (apart away)⟩)

/- The only frame of the cache is taken by a page that is changed, so the page behind it cannot be
read: its lock stays from asking for it, and an insert raises the lock before it fails. -/

def sampleCrowded : History PoolCall Unit × Traffic Pool PoolCall Unit :=
  sharing.next (.get 1 ⟨1, 1⟩ .shared) (sharing.next (.insert 1 1 [7, 0, 0, 0])
    (sharing.next (.register sampleFile) ([], ⟨sampleStart, []⟩)))

theorem sampleCrowdedRun : sharing.Run sampleStart sampleCrowded.1 sampleCrowded.2 := by
  have suits : sampleStart.Suits sampleFile := rfl
  exact .alone sharing (.alone sharing
    (.alone sharing .start (.register sampleFile) (fun _ => suits) rfl)
    (.insert 1 1 [7, 0, 0, 0]) trivial rfl) (.get 1 ⟨1, 1⟩ .shared) trivial rfl

theorem sampleCrowdedTable {table : TableId} {file : HeapFile}
    (found : sampleCrowded.2.state.tables.get? table = some file) : file = sampleFile := by
  replace found := (KeyMap.getInsert ..).symm.trans found
  split at found
  · exact (Option.some.inj found).symm
  · cases found

theorem sampleCrowdedRoom : sampleCrowded.2.state.Room := fun _ _ found =>
  sampleCrowdedTable found ▸ by decide

theorem sampleCrowdedBlank : sampleCrowded.2.state.Spared .fill := by
  have spared : sampleCrowded.2.state.storage.Spares sampleFile.volume .fill :=
    ⟨fun _ inside => absurd inside List.not_mem_nil, fun _ inside => absurd inside List.not_mem_nil⟩
  exact fun _ _ found => sampleCrowdedTable found ▸ spared

theorem sampleLocksOnlyItsPage : sharing.Run sampleStart sampleCrowded.1 sampleCrowded.2 ∧
    sampleCrowded.2.state.Room ∧ sampleCrowded.2.state.Spared .fill ∧
    ∃ e q, (insert 1 1 [9, 0, 0, 0]).settled sampleCrowded.2.state = .error e q ∧
      Botched 1 sampleCrowded.2.state 1 q := by
  obtain ⟨e, q, failed⟩ : ∃ e q, (insert 1 1 [9, 0, 0, 0]).settled sampleCrowded.2.state =
    .error e q := ⟨_, _, rfl⟩
  have ended := insertLocksOnlyItsPage sampleCrowdedRun sampleCrowdedRoom sampleCrowdedBlank 1 1
    [9, 0, 0, 0]
  rw [failed] at ended
  exact ⟨sampleCrowdedRun, sampleCrowdedRoom, sampleCrowdedBlank, e, q, failed, ended.1⟩

theorem failedInsertRaisesLock : sharing.Run sampleStart sampleCrowded.1 sampleCrowded.2 ∧
    sampleCrowded.2.state.Room ∧ sampleCrowded.2.state.Spared .fill ∧
    ∃ e q, (insert 1 1 [9, 0, 0, 0]).settled sampleCrowded.2.state = .error e q ∧
      ¬ OneMore 1 sampleCrowded.2.state.locks q.locks := by
  refine ⟨sampleCrowdedRun, sampleCrowdedRoom, sampleCrowdedBlank, _, _, rfl, ?_⟩
  have before : sampleCrowded.2.state.locks.access? 1 ⟨1, 1⟩ = some .shared := rfl
  rintro (kept | ⟨page, access, missing, set⟩)
  · exact absurd (kept ⟨1, 1⟩) (by decide)
  · have away : page ≠ ⟨1, 1⟩ := fun same => by
      rw [same, before] at missing
      cases missing
    have still := set ⟨1, 1⟩
    rw [if_neg away] at still
    exact absurd still (by decide)

end Pool
end PagedHeap
