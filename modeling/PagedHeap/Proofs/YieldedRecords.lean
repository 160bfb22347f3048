import PagedHeap.Proofs.Cursors
import PagedHeap.Proofs.Frames
import PagedHeap.Proofs.SureCalls

/-! The records that a cursor yields while others, and its own transaction, are at work on the
pool. It looks at one copy of its page for as long as it stands there, so what it yields is
stored, unless that copy has left the cache and the transaction has changed the page since. -/
namespace PagedHeap

open Pool (Moves Interlude Reaches Merely)

/- What is not asked for while a transaction looks at a frame: that it ends or gives up its lock
on the page, that the page is dropped from the cache, and, once another copy of it has been
changed, that this is written back before its time. -/
def PoolCall.RespectsFrame (txn : TxnId) (frame : Frame) (p : Pool) : PoolCall → Prop
  | .release maker page => maker = txn → page ≠ frame.page.id
  | .commit maker | .abort maker => maker ≠ txn
  | .discard page => page ≠ frame.page.id
  | .flush maker => maker = txn → ¬ p.Overtaken txn frame
  | .flushAll => ¬ p.Overtaken txn frame
  | _ => True

def PoolCall.looks : PoolCall → Prop
  | .get .. | .peek _ | .insert .. | .delete .. => True
  | _ => False

theorem PoolCall.prompt {call : PoolCall} (prompt : ¬ call.looks) :
    ∃ work : Instant Pool Unit, call.work = monadLift work := by
  cases call <;> first | exact ⟨_, rfl⟩ | exact absurd trivial prompt

namespace Cursor

def minded (txn : TxnId) : Service Browsing Browse Browsed :=
  {service (some txn) with
    Admits := fun r s => (service (some txn)).Admits r s ∧ ∀ call frame, r = .call call →
      s.cursor.Stands frame → call.RespectsFrame txn frame s.pool}

end Cursor

namespace Pool

variable {p q : Pool} {txn : TxnId} {frame : Frame} {frames : Frame → Prop} {call : PoolCall}

def Guides (txn : TxnId) (frames : Frame → Prop) (p q : Pool) : Prop :=
  ∀ frame, frames frame → p.Tidy → p.TracksLocked txn frame → q.TracksLocked txn frame

theorem Reaches.guides {α : Type} {kind : Act → Prop} {who : Option TxnId}
    {done : Pool → α → Pool → Prop} {work : Progress Pool α} (h : Reaches kind who done work p)
    (heeds : ∀ frame, frames frame → ∀ act, kind act → act.heeds txn frame.page.id)
    (last : ∀ m a q, done m a q → Guides txn frames m q) :
    work.Meets (Guides txn frames) (Interlude who) (fun a _ b => Guides txn frames a b) p := by
  have moved {a b : Pool} (moves : Moves kind a b) : Guides txn frames a b :=
    fun frame there tidy tracks => tracks.moves tidy (heeds frame there) moves
  refine Progress.Meets.mono h (fun _ _ moves => moved moves) (fun _ _ same => same)
    fun s a q ended frame there tidy tracks => ?_
  obtain ⟨m, moves, done⟩ := ended
  exact last m a q done frame there (tidy.moves moves) (moved moves frame there tidy tracks)

theorem looksGuides (housed : p.Housed) (txn : TxnId) (frames : Frame → Prop) (looks : call.looks)
    (mine : call.txn? = some txn → ∀ frame, frames frame → p.TracksLocked txn frame) :
    (call.work p).Meets (Guides txn frames) (Interlude call.txn?)
      (fun a _ b => Guides txn frames a b) p := by
  cases call with
  | get maker page access =>
    exact Progress.Meets.andThen ((getPageReaches housed maker page access).guides
      (fun _ _ _ own => Act.readsHeeds own.1)
      fun m a q same _ _ _ tracks => same.1 ▸ tracks) fun _ _ _ guides => guides
  | peek page =>
    have fetched : Reaches Act.looks none (Merely fun _ _ => True) (.ended (fetch page p)) p :=
      .lift ((fetchEnds housed page).mono (fun _ _ ended => ⟨ended.1, trivial⟩) fun _ lost => lost)
    exact Progress.Meets.andThen (fetched.guides (fun _ _ _ => Act.looksHeeds)
      fun m a q same _ _ _ tracks => same.1 ▸ tracks) fun _ _ _ guides => guides
  | insert maker table data =>
    have holding : p.Holding maker fun page =>
        maker = txn ∧ ∃ frame, frames frame ∧ page = frame.page.id := by
      rintro _ ⟨rfl, frame, there, rfl⟩
      exact (mine rfl frame there).locked
    refine Progress.Meets.andThen ((insertHolding housed holding table data).guides
      (fun frame there act own => ?_) fun m rid q filled frame _ tidy tracks => ?_)
      fun _ _ _ guides => guides
    · cases act with
      | unprobe other page =>
        refine ⟨fun lost => own.2 ?_, trivial⟩
        exact ⟨(Option.some.inj own.1.1).trans lost.1, frame, there, lost.2⟩
      | aside | load | evict | extend | take => exact ⟨id, trivial⟩
      | _ => exact own.1.1.elim
    · exact tracks.move tidy ⟨id, trivial⟩ filled.1
  | delete maker rid =>
    cases rid with
    | none =>
      exact Progress.meetsEnded (show Ends _ _ (.error _ p) from fun _ _ _ tracks => tracks)
    | some rid =>
      exact (deleteAtReaches housed rid).guides (fun _ _ _ own => Act.readsHeeds own.1)
        fun m _ q cleared _ _ tidy tracks => tracks.move tidy ⟨id, trivial⟩ cleared
  | _ => exact looks.elim

namespace TracksLocked

/- Others write back, drop and give up what they own, and that is not this page. -/

theorem saved (tracks : p.TracksLocked txn frame) (tidy : p.Tidy) {maker : TxnId}
    (apart : maker ≠ txn)
    (moves : Moves (Act.saves (p.locks.ownedBy maker)) p q) : q.TracksLocked txn frame := by
  refine tracks.moves tidy (fun act saves => ?_) moves
  cases act with
  | aside => exact ⟨id, trivial⟩
  | save page => exact ⟨id, fun own => tracks.notOwned tidy.coherent apart (own ▸ saves)⟩
  | _ => exact saves.elim

theorem forgot (tracks : p.TracksLocked txn frame) (tidy : p.Tidy) {maker : TxnId}
    (apart : maker ≠ txn)
    (moves : Moves (Act.forgets (p.locks.ownedBy maker)) p q) : q.TracksLocked txn frame := by
  refine tracks.moves tidy (fun act forgets => ?_) moves
  cases act with
  | forget page => exact ⟨id, fun own => tracks.notOwned tidy.coherent apart (own ▸ forgets)⟩
  | _ => exact forgets.elim

theorem gaveAll (tracks : p.TracksLocked txn frame) (tidy : p.Tidy) {maker : TxnId}
    (apart : maker ≠ txn) (move : Move (.giveAll maker) p q) : q.TracksLocked txn frame := by
  have kept : (Act.giveAll maker).heeds txn frame.page.id := ⟨apart, trivial⟩
  exact tracks.move tidy kept move

end TracksLocked

theorem promptTracks (tidy : p.Tidy) (tracks : p.TracksLocked txn frame) (prompt : ¬ call.looks)
    (admitted : sharing.Admits call p) (minds : call.RespectsFrame txn frame p) :
    Ends (fun _ q => q.TracksLocked txn frame) (fun q => q.TracksLocked txn frame)
      (call.work.settled p) := by
  cases call with
  | register file =>
    exact (registerEnds admitted).mono (fun _ _ made => tracks.move tidy ⟨id, trivial⟩ made)
      fun _ same => same ▸ tracks
  | release maker page =>
    have kept : (Act.giveBack maker page).heeds txn frame.page.id :=
      ⟨fun lost => minds lost.1 lost.2, trivial⟩
    exact tracks.move tidy kept .giveBack
  | flush maker =>
    have flushed {q : Pool} (moves : Moves (Act.saves (p.locks.ownedBy maker)) p q) :
        q.TracksLocked txn frame := by
      by_cases own : maker = txn
      · exact tracks.saves tidy (minds own) moves
      · exact tracks.saved tidy own moves
    exact (flushEach tidy.toHoused _).mono (fun _ _ saved => flushed saved.1)
      fun _ lost => flushed lost.1
  | flushAll =>
    exact (flushAllEnds tidy.toHoused).mono (fun _ _ saved => tracks.saves tidy minds saved.1)
      fun _ lost => tracks.saves tidy minds lost.1
  | discard page =>
    have kept : (Act.forget page).heeds txn frame.page.id := ⟨id, minds⟩
    exact tracks.move tidy kept .forget
  | commit maker =>
    refine (commitEnds tidy.toHoused maker).mono (fun _ q ended => ?_)
      fun _ lost => tracks.saved tidy minds lost.1
    obtain ⟨m, saved, _, given⟩ := ended
    exact (tracks.saved tidy minds saved).gaveAll (tidy.moves saved) minds given
  | abort maker =>
    refine (abortEnds maker p).mono (fun _ q ended => ?_) fun _ none => none.elim
    obtain ⟨m, forgot, given⟩ := ended
    exact (tracks.forgot tidy minds forgot.moves).gaveAll (tidy.moves forgot.moves) minds given
  | _ => exact absurd trivial prompt

end Pool

namespace Browsing

variable {txn : TxnId} {s t : Browsing} {r : Browse}

/- The cursor belongs to the transaction, which has locked the page that the cursor stands on. -/
structure Attended (txn : TxnId) (s : Browsing) : Prop where
  tidy : s.pool.Tidy
  apart : s.pool.Separate
  own : s.cursor.txn = some txn
  tracks : ∀ frame, s.cursor.Stands frame → s.pool.TracksLocked txn frame

/- What is done in a stretch, for a request that leaves the cursor where it is. -/
structure Stretch (txn : TxnId) (r : Browse) (s t : Browsing) : Prop where
  cursor : t.cursor = s.cursor
  parting : Pool.Parting (r.txn? (some txn)) s.pool t.pool
  guides : Pool.Guides txn s.cursor.Stands s.pool t.pool

structure Others (txn : TxnId) (r : Browse) (s t : Browsing) : Prop where
  pool : Interlude (r.txn? (some txn)) s.pool t.pool
  cursor : r.txn? (some txn) = some txn → t.cursor = s.cursor

inductive Done (txn : TxnId) : Browse → Browsing → Browsed → Browsing → Prop
  | call {call : PoolCall} {s t : Browsing} (stretch : Stretch txn (.call call) s t) :
      Done txn (.call call) s .done t
  | next {s t : Browsing} {outcome} (yields : s.cursor.Yields s.pool outcome t.cursor t.pool) :
      Done txn .next s (.got outcome) t
  | rewind {s : Browsing} : Done txn .rewind s .done {s with cursor := s.cursor.rewind}

theorem Attended.stretch (attended : Attended txn s) (stretch : Stretch txn r s t) :
    Attended txn t where
  tidy := attended.tidy.moves stretch.parting.1
  apart := stretch.parting.2 attended.apart
  own := stretch.cursor ▸ attended.own
  tracks frame stands := by
    rw [stretch.cursor] at stands
    exact stretch.guides frame stands attended.tidy (attended.tracks frame stands)

theorem Attended.yields (attended : Attended txn s) {outcome : Except Error (Option Record)}
    (yields : s.cursor.Yields s.pool outcome t.cursor t.pool) : Attended txn t := by
  obtain ⟨pool, cursor⟩ := t
  have tidy : pool.Tidy := attended.tidy.moves yields.moves
  have apart : pool.Separate := attended.apart.reads yields.moves
  have nobody {d : Cursor} {frame : Frame} (past : d.position = .exhausted) : ¬ d.Stands frame := by
    rintro ⟨_, _, same⟩
    cases past.symm.trans same
  cases yields with
  | spent => exact ⟨tidy, apart, attended.own, fun frame stands => absurd stands (nobody rfl)⟩
  | @here number slot frame record position stands taken =>
    obtain ⟨used, _, rfl, _⟩ := Cursor.takeSource taken
    refine ⟨tidy, apart, attended.own, fun other now => ?_⟩
    obtain ⟨_, _, same⟩ := now
    cases same
    exact attended.tracks frame ⟨_, _, stands⟩
  | @further number frame record position _ moves present locked taken =>
    obtain ⟨used, _, rfl, _⟩ := Cursor.takeSource taken
    refine ⟨tidy, apart, attended.own, fun other now => ?_⟩
    obtain ⟨_, _, same⟩ := now
    cases same
    exact tidy.tracksLocked present (locked txn attended.own)

theorem Attended.done (attended : Attended txn s) {a : Browsed} (done : Done txn r s a t) :
    Attended txn t := by
  cases done with
  | call stretch => exact attended.stretch stretch
  | next yields => exact attended.yields yields
  | rewind =>
    refine ⟨attended.tidy, attended.apart, attended.own, fun frame stands => ?_⟩
    obtain ⟨_, _, same⟩ := stands
    cases same

theorem Done.moves {a : Browsed} (own : s.cursor.txn = some txn) (done : Done txn r s a t) :
    Moves (Act.byOwn (r.txn? (some txn))) s.pool t.pool := by
  cases done with
  | call stretch => exact stretch.parting.1
  | next yields => exact own ▸ yields.own
  | rewind => exact .refl

theorem nextMeets (attended : Attended txn s) :
    (Browse.next.work s).Meets (Stretch txn .next) (Others txn .next) (Done txn .next) s := by
  have yields := s.cursor.nextMeets attended.tidy.toHoused
  rw [attended.own] at yields
  refine (Browse.nextWork yields).mono (fun a b moved => ?_)
    (fun _ _ others => ⟨others.pool, others.cursor rfl⟩) fun a x b ended => ?_
  · refine ⟨moved.1, ⟨moved.2.mono fun _ reads => Act.seeksOwn (Act.readsSeeks reads),
      fun apart => apart.reads moved.2⟩, fun frame _ tidy tracks => ?_⟩
    exact tracks.moves tidy (fun _ => Act.readsHeeds) moved.2
  · obtain ⟨outcome, rfl, same, yields⟩ := ended
    exact .next (same ▸ yields)

theorem looksMeets (attended : Attended txn s) {call : PoolCall} (looks : call.looks)
    (stays : (call.work s.pool).Meets (Pool.Parting call.txn?) (Interlude call.txn?)
      (fun p _ q => Pool.Parting call.txn? p q) s.pool) :
    ((Browse.call call).work s).Meets (Stretch txn (.call call)) (Others txn (.call call))
      (Done txn (.call call)) s := by
  -- a transaction that waits for a page does not move its cursor meanwhile
  have guides := Pool.looksGuides attended.tidy.toHoused txn
    (fun frame => call.txn? = some txn → s.cursor.Stands frame) looks
    fun mine frame there => attended.tracks frame (there mine)
  have whole := (Browse.callWork (stays.both guides)).mono (fun _ _ same => same)
    (fun _ _ (others : Others txn (.call call) _ _) => others.pool) (fun _ _ _ same => same)
  have kept := whole.keepAll (fun u => call.txn? = some txn → u.cursor = s.cursor)
    (fun _ _ before moved mine => moved.1.trans (before mine))
    (fun _ _ before others mine => (others.cursor mine).trans (before mine)) fun _ => rfl
  have stretch {a b : Browsing} (fact : call.txn? = some txn → a.cursor = s.cursor)
      (same : b.cursor = a.cursor) (moves : Pool.Parting call.txn? a.pool b.pool)
      (guides : Pool.Guides txn (fun frame => call.txn? = some txn → s.cursor.Stands frame) a.pool
        b.pool) : Stretch txn (.call call) a b :=
    ⟨same, moves, fun frame stands => guides frame fun mine => fact mine ▸ stands⟩
  refine kept.mono (fun a b moved => stretch moved.1 moved.2.1 moved.2.2.1 moved.2.2.2)
    (fun _ _ same => same) fun a x b ended => ?_
  obtain ⟨fact, rfl, same, moves, guides⟩ := ended
  exact .call (stretch fact same moves guides)

theorem promptMeets (attended : Attended txn s) {call : PoolCall} (prompt : ¬ call.looks)
    (admitted : (Cursor.minded txn).Admits (.call call) s)
    (stays : (call.work s.pool).Meets (Pool.Parting call.txn?) (Interlude call.txn?)
      (fun p _ q => Pool.Parting call.txn? p q) s.pool) :
    ((Browse.call call).work s).Meets (Stretch txn (.call call)) (Others txn (.call call))
      (Done txn (.call call)) s := by
  obtain ⟨tidy, _, _, tracks⟩ := attended
  obtain ⟨pool, cursor⟩ := s
  obtain ⟨work, same⟩ := PoolCall.prompt prompt
  have kept (frame : Frame) (stands : cursor.Stands frame) :=
    Pool.promptTracks tidy (tracks frame stands) prompt (Pool.admittedShared admitted.1)
      (admitted.2 call frame rfl stands)
  rw [same] at stays kept
  have moved := Progress.Meets.ends stays
  have guided : Ends (fun _ q => Pool.Guides txn cursor.Stands pool q)
      (Pool.Guides txn cursor.Stands pool) (work pool) :=
    (Ends.all fun frame => Ends.all (kept frame)).mono
      (fun _ _ tracks frame stands _ _ => tracks frame stands)
      fun _ tracks frame stands _ _ => tracks frame stands
  have stretch : Ends (fun _ t => Stretch txn (.call call) ⟨pool, cursor⟩ t)
      (Stretch txn (.call call) ⟨pool, cursor⟩) (poolPart.instant work ⟨pool, cursor⟩) :=
    Ends.inPart ((Ends.both moved guided).mono (fun _ q both => ⟨rfl, both.1, both.2⟩)
      fun _ both => ⟨rfl, both.1, both.2⟩)
  change Progress.Meets _ _ _ (Progress.andThen (fun _ t => .ended (.ok Browsed.done t))
    (Progress.within poolPart ⟨pool, cursor⟩ (call.work pool))) _
  rw [same]
  have answered : (Progress.ended (poolPart.instant work ⟨pool, cursor⟩)).Meets
      (Stretch txn (.call call)) (Others txn (.call call))
      (fun s _ t => Stretch txn (.call call) s t) ⟨pool, cursor⟩ := Progress.meetsEnded stretch
  exact answered.andThen fun _ _ _ stretch => .call stretch

theorem callMeets (attended : Attended txn s) {call : PoolCall}
    (admitted : (Cursor.minded txn).Admits (.call call) s) :
    ((Browse.call call).work s).Meets (Stretch txn (.call call)) (Others txn (.call call))
      (Done txn (.call call)) s := by
  have stays := Pool.callParting attended.tidy.toHoused call admitted.1
  by_cases looks : call.looks
  · exact looksMeets attended looks stays
  · exact promptMeets attended looks admitted stays

theorem lawOfCursor (txn : TxnId) : (Cursor.minded txn).Law (fun _ => Attended txn) (Stretch txn)
    (Others txn) (Done txn) where
  works r attended admitted := by
    cases r with
    | call call => exact callMeets attended admitted
    | next => exact nextMeets attended
    | rewind => exact Done.rewind
  stops _ attended stretch := attended.stretch stretch
  fails _ _ attended stretch := attended.stretch stretch
  ends _ _ attended done := attended.done done
  idle _ attended := ⟨.refl attended.tidy.toHoused, fun _ => rfl⟩
  join _ _ _ _ first second := ⟨first.pool.trans second.pool,
    fun mine => (second.cursor mine).trans (first.cursor mine)⟩
  aside _ _ attended free stretch :=
    ⟨stretch.parting.1.interlude attended.tidy.toHoused free, fun _ => stretch.cursor⟩
  asideDone _ _ _ attended free done := by
    refine ⟨(done.moves attended.own).interlude attended.tidy.toHoused free, fun mine => ?_⟩
    cases done with
    | call stretch => exact stretch.cursor
    | next | rewind => exact absurd mine (free txn rfl)

end Browsing

namespace Pool

variable {p : Pool} {txn : TxnId} {frame : Frame} {record : Record}

/- The record is stored where it says, and there the transaction finds it on every page that it
is given. -/
def Finds (p : Pool) (txn : TxnId) (record : Record) : Prop :=
  ∃ rid, record.rid = some rid ∧ p.rows rid = some record.data ∧
    ∀ access frame q, (getPage txn rid.page access).settled p = .ok frame q →
      frame.page.get? rid.slot.toNat = some record

theorem getPageShows (tidy : p.Tidy) (apart : p.Separate) (room : p.Room) {page : PageId}
    {its : HeapFile}
    {image : Bytes} (known : p.tables.get? page.table = some its) (seen : p.view? page = some image)
    {access : Access} {other : Frame} {q : Pool}
    (done : (getPage txn page access).settled p = .ok other q) :
    other.page.id = page ∧ other.page.layout = its.layout ∧ other.page.image = image := by
  have got := (getPageReaches tidy.toHoused txn page access).settled tidy.toHoused
  change Ends _ _ ((getPage txn page access).settled p) at got
  rw [done] at got
  obtain ⟨_, moves, rfl, present, _⟩ := got
  -- looking for the page has changed nothing of what is seen of it
  have reads : Moves (Act.reads (some txn)) p _ := moves.mono fun _ => And.left
  have sized := reads.sizedReads
  have shown := tidy.toSound.viewsKept (fun _ own => Act.mildLeaves _ (Act.readsMild own))
    reads (apart.reads reads) (sized.room room _) seen
  rw [viewResident present] at shown
  obtain ⟨file, found, key, layout, _⟩ := (tidy.toHoused.moves moves).keeps _ other present
  rw [sized.tables, known] at found
  cases found
  exact ⟨key, layout, Option.some.inj shown⟩

theorem TracksLocked.finds (tracks : p.TracksLocked txn frame) (tidy : p.Tidy)
    (level : ¬ p.Overtaken txn frame)
    (apart : p.Separate) (room : p.Room) (slots : ∀ table file, p.tables.get? table = some file →
      file.layout.slots ≤ UInt32.size) {used : Nat}
    (found : (p.latest frame).get? used = some record) : p.Finds txn record := by
  obtain ⟨file, known, key, layout, _⟩ := tracks.keeps
  replace key : (p.latest frame).id = frame.page.id := key
  replace layout : (p.latest frame).layout = file.layout := layout
  have seen := tracks.seen level apart (room _)
  obtain ⟨_, number⟩ := tracks.keeps.place slots found
  obtain ⟨isUsed, rfl⟩ := Page.getSource found
  refine ⟨_, rfl, ?_, fun access other q done => ?_⟩
  · have row := (p.latest frame).rowOf used
    rw [layout, if_pos isUsed] at row
    simp only [rows, rowsOf, key, known, seen, number, Option.bind_some, row]
  · rw [key] at done
    obtain ⟨key', layout', image⟩ := getPageShows tidy apart room known seen done
    rw [number]
    exact (Page.getAlike (key'.trans key.symm) (layout'.trans layout.symm) image used).trans found

end Pool

namespace Cursor

open Browsing (Attended lawOfCursor)

variable {config : Config} {storage : Storage} {draws : List Nat} {file : HeapFile} {txn : TxnId}
  {h : History Browse Browsed} {t u : Traffic Browsing Browse Browsed} {record : Record}

def start (config : Config) (storage : Storage) (draws : List Nat) (file : HeapFile) (txn : TxnId) :
    Browsing := ⟨{Pool.ofConfig config storage with draws}, .ofFile file (some txn)⟩

theorem startAttended : Attended txn (start config storage draws file txn) := by
  have sound : Pool.Sound {Pool.ofConfig config storage with draws} :=
    Pool.newSound config storage draws
  refine ⟨⟨sound, LockTable.emptyCoherent, nofun, nofun⟩, nofun, rfl, fun frame stands => ?_⟩
  obtain ⟨_, _, same⟩ := stands
  cases same

/-- What a cursor yields is stored, unless its copy of the page has left the cache and its
transaction has then changed the page in another copy. -/
theorem yieldsStored (run : (minded txn).Run (start config storage draws file txn) h t)
    (step : (minded txn).Step (h, t) ((.next, .ok (.got (.ok (some record)))) :: h, u))
    (room : u.state.pool.Room) (slots : ∀ table its, u.state.pool.tables.get? table = some its →
      its.layout.slots ≤ UInt32.size) :
    u.state.pool.Finds txn record ∨ ∃ frame, t.state.cursor.Stands frame ∧
      t.state.pool.Overtaken txn frame ∧ ∃ slot, record.rid = some ⟨frame.page.id, slot⟩ := by
  have orderly := (lawOfCursor txn).run startAttended run
  obtain ⟨done, _⟩ := (lawOfCursor txn).answered orderly step
  have there := orderly.holds.done done
  obtain ⟨⟨pool, cursor⟩, waiting⟩ := u
  cases done with
  | next yields =>
    cases yields with
    | spent nothing => exact absurd rfl (nothing record)
    | @here number slot frame _ position stands taken =>
      obtain ⟨used, found, _⟩ := takeSource taken
      have tracks := orderly.holds.tracks frame ⟨_, _, stands⟩
      by_cases level : t.state.pool.Overtaken txn frame
      · obtain ⟨_, rfl⟩ := Page.getSource found
        obtain ⟨_, _, key, _⟩ := tracks.keeps
        exact .inr ⟨frame, ⟨_, _, stands⟩, level, .ofNat used,
          congrArg (fun page => some (Rid.mk page (.ofNat used))) key⟩
      · exact .inl (tracks.finds there.tidy level there.apart room slots found)
    | @further number frame _ position _ moves present locked taken =>
      obtain ⟨used, found, _⟩ := takeSource taken
      have tracks := there.tidy.tracksLocked present (locked txn orderly.holds.own)
      obtain ⟨_, _, key, _⟩ := there.tidy.keeps _ frame present
      rw [← key] at present
      -- the copy that the cursor has come to is the one in the cache
      have level : ¬ pool.Overtaken txn frame := by
        rintro ⟨other, another, apart, _⟩
        cases present.symm.trans another
        exact apart rfl
      rw [← Pool.latestResident present rfl] at found
      exact .inl (tracks.finds there.tidy level there.apart room slots found)

/- A table of two pages, the first one with two records, and a cache for one page. -/

def sampleFile : HeapFile := {Pool.sampleFile with
  layout := {Pool.sampleFile.layout with pageSize := 10, holdsOne := by decide}}

def sampleStorage : Storage :=
  ⟨.empty "", [⟨10, .memory [[3, 1, 0, 0, 0, 2, 0, 0, 0, 0], List.replicate 10 0], [], [], []⟩]⟩

def sampleStart : Browsing := start {poolSize := 1} sampleStorage [] sampleFile 1

def sampleOpen : History Browse Browsed × Traffic Browsing Browse Browsed :=
  (minded 1).next (.call (.register sampleFile)) ([], ⟨sampleStart, []⟩)

def sampleFirst : History Browse Browsed × Traffic Browsing Browse Browsed :=
  (minded 1).next .next sampleOpen

def sampleRecord (slot : UInt32) (value : UInt8) : Record :=
  ⟨some ⟨⟨1, 0⟩, slot⟩, [value, 0, 0, 0]⟩

theorem sampleOpens : (minded 1).Run sampleStart sampleOpen.1 sampleOpen.2 :=
  .alone (minded 1) .start (.call (.register sampleFile))
    ⟨fun _ => ⟨rfl, nofun⟩, fun _ _ _ stands => nomatch stands⟩ rfl

theorem sampleYields : (minded 1).Run sampleStart sampleOpen.1 sampleOpen.2 ∧
    (minded 1).Step sampleOpen
      ((.next, .ok (.got (.ok (some (sampleRecord 0 1))))) :: sampleOpen.1, sampleFirst.2) ∧
    sampleFirst.2.state.pool.Finds 1 (sampleRecord 0 1) := by
  have step : (minded 1).Step sampleOpen
      ((.next, .ok (.got (.ok (some (sampleRecord 0 1))))) :: sampleOpen.1, sampleFirst.2) :=
    .alone (minded 1) .next ⟨trivial, nofun⟩ rfl
  have only (table : TableId) (its : HeapFile)
      (found : sampleFirst.2.state.pool.tables.get? table = some its) : its = sampleFile := by
    replace found := (KeyMap.getInsert ..).symm.trans found
    split at found
    · exact (Option.some.inj found).symm
    · cases found
  refine ⟨sampleOpens, step, (yieldsStored sampleOpens step
    (fun table its found => only table its found ▸ by decide)
    fun table its found => only table its found ▸ by decide).resolve_right ?_⟩
  rintro ⟨_, ⟨_, _, stands⟩, _⟩
  cases stands

/- The other page takes the place of the one that the cursor stands on, and this one is changed
after it has been read again. -/
def sampleDeleted : History Browse Browsed × Traffic Browsing Browse Browsed :=
  (minded 1).next (.call (.delete 1 (some ⟨⟨1, 0⟩, 1⟩)))
    ((minded 1).next (.call (.get 1 ⟨1, 1⟩ .shared)) sampleFirst)

theorem overtakenYieldsDeleted : (minded 1).Run sampleStart sampleDeleted.1 sampleDeleted.2 ∧
    (.call (.delete 1 (some ⟨⟨1, 0⟩, 1⟩)), .ok .done) ∈ sampleDeleted.1 ∧
    (minded 1).Step sampleDeleted
      ((.next, .ok (.got (.ok (some (sampleRecord 1 2))))) :: sampleDeleted.1,
        ((minded 1).next .next sampleDeleted).2) ∧
    ¬ ((minded 1).next .next sampleDeleted).2.state.pool.Finds 1 (sampleRecord 1 2) := by
  have run : (minded 1).Run sampleStart sampleDeleted.1 sampleDeleted.2 :=
    .alone (minded 1) (.alone (minded 1) (.alone (minded 1) sampleOpens .next ⟨trivial, nofun⟩ rfl)
      (.call (.get 1 ⟨1, 1⟩ .shared)) ⟨trivial, fun _ _ same _ => by cases same; trivial⟩ rfl)
      (.call (.delete 1 (some ⟨⟨1, 0⟩, 1⟩))) ⟨trivial, fun _ _ same _ => by cases same; trivial⟩ rfl
  refine ⟨run, List.mem_cons_self, .alone (minded 1) .next ⟨trivial, nofun⟩ rfl, ?_⟩
  rintro ⟨_, same, row, _⟩
  cases same
  cases row

end Cursor
end PagedHeap
