import Mathlib.Data.List.Infix
import PagedHeap.Proofs.CalmScans
import PagedHeap.Proofs.ShellEdits

/-! What the abort of a shell takes back. The commands of the open transaction change nothing on
the volumes but by a flush, which writes what is not committed as well. So a table that is listed
after the abort is as it was at the last flush, or when the transaction began. -/
namespace PagedHeap

theorem Tidy.alone {stray : TxnId → Prop} {current : Option TxnId} {e : Engine}
    (tidy : Tidy stray current e) (none : e.ledger.active = []) :
    current = .none ∧ (∀ txn, e.pool.locks.heldBy txn = []) ∧ Tidy (fun _ => False) .none e := by
  have stopped (txn : TxnId) : ¬ e.Runs txn := fun runs => by
    have active := Ledger.memActive.mpr runs
    rw [none] at active
    exact List.not_mem_nil active
  have free (txn : TxnId) : e.pool.locks.heldBy txn = [] := by
    by_contra held
    exact stopped txn (tidy.holders txn held)
  exact ⟨Option.eq_none_iff_forall_ne_some.mpr fun txn opened =>
    stopped txn (tidy.runs txn opened), free, nofun, fun txn held => absurd (free txn) held,
    fun txn runs => absurd runs (stopped txn)⟩

namespace Pool

variable {p : Pool}

theorem Calm.sturdy (calm : p.Calm) : p.Sturdy := ⟨calm.toOrderly, calm.smooth, calm.unlatched⟩

theorem Sturdy.calm (sturdy : p.Sturdy) (room : p.Room) (space : 0 < p.capacity)
    (free : ∀ txn, p.locks.heldBy txn = []) : p.Calm where
  toGuarded := sturdy.toOrderly.guarded
  slots := sturdy.slots
  smooth := sturdy.smooth
  room := room
  space := space
  unlatched := sturdy.unlatched
  free txn page owns := by
    rw [LockTable.access?, free txn] at owns
    cases owns

end Pool

namespace Engine

variable {e : Engine} {txn : TxnId}

theorem commitRuns (sturdy : e.pool.Sturdy) (runs : e.Runs txn) :
    ∃ e', commit txn e = .ok () e' := by
  have ended : Ends _ _ (commit txn e) := finishEnds (sturdy.commitSturdy txn)
  cases done : commit txn e with
  | ok _ e' => exact ⟨e', rfl⟩
  | error cause e' =>
    rw [done] at ended
    rcases ended with ⟨still, _⟩ | ⟨_, none, _⟩
    · exact absurd runs still
    · exact none.elim

theorem scanCalm (calm : e.pool.Calm) {table : TableId} {file : HeapFile}
    (found : e.pool.tables.get? table = some file) (txn : TxnId) :
    ∃ q, (scan (some txn) table).settled e = .ok (file.decode e.pool.storage) {e with pool := q} ∧
      q.Calm := by
  obtain rfl := calm.named table file found
  obtain ⟨q, listed, there, _⟩ := calm.lists found txn
  refine ⟨q, ?_, there⟩
  unfold scan
  rw [Activity.settledBind, Activity.settledLift, okThen (tableKnown found),
    Activity.settledWithin]
  change poolPart.outcome e ((file.scan (some txn) e.pool).settle) = _
  rw [listed]
  rfl

end Engine

namespace Shell

open Engine (Ended)
open Pool (Sturdy Calm)

variable {α : Type} {s t : Shell} {txn : TxnId} {lasting : Prop}

/- What lines mean, and what comes of them. -/

def means (fields : Nat) (line : String) (command : Command) : Bool :=
  match Command.read fields line with
  | .ok (some told) => told = command
  | _ => false

variable {line : String} {command : Command}

theorem meansOne (told : means s.fields line command = true) {other : Command}
    (apart : command ≠ other) : means s.fields line other = false := by
  unfold means at told ⊢
  split
  · rename_i read
    rw [read] at told
    exact decide_eq_false fun same => apart ((of_decide_eq_true told).symm.trans same)
  · rfl

theorem executeSaid (told : means s.fields line command = true) :
    execute line s = perform command s := by
  unfold execute
  rw [getThen]
  unfold means at told
  split at told
  · rename_i other read
    rw [read, of_decide_eq_true told]
  · cases told

theorem afterYields {P : Shell → Prop}
    (h : Yields (fun _ t => P t) (fun _ t => P t) (execute line s)) : P (s.after line) := by
  unfold after
  cases executed : execute line s <;> rw [executed] at h <;> exact h

theorem afterSturdy (sturdy : s.engine.pool.Sturdy) (line : String) :
    StaysSturdy (s.current ≠ none ∧ means s.fields line .flush = false ∧
      means s.fields line .commit = false) s (s.after line) := by
  refine afterYields ?_
  unfold execute
  rw [getThen]
  unfold means
  cases Command.read s.fields line with
  | error cause => exact StaysSturdy.refl sturdy
  | ok command? =>
    cases command? with
    | none => exact StaysSturdy.refl sturdy
    | some command =>
      refine EndsSturdy.mono (performSturdy sturdy command) fun h => ⟨h.1, ?_, ?_⟩
      · exact of_decide_eq_false h.2.1
      · exact of_decide_eq_false h.2.2

theorem afterAllSturdy (sturdy : s.engine.pool.Sturdy) (lines : List String) :
    StaysSturdy False s (s.afterAll lines) := by
  induction lines generalizing s with
  | nil => exact .refl sturdy
  | cons line rest ih =>
    have first := afterSturdy sturdy line
    exact (first.mono False.elim).trans (ih first.pool.sturdy)

theorem beginOpens (closed : s.current = none) (told : means s.fields line .begin = true) :
    s.after line = {s with
      engine := {s.engine with ledger := s.engine.ledger.begin.2}
      current := some s.engine.ledger.nextTxn} := by
  have done : execute line s = Shell.begin s := executeSaid told
  unfold after
  rw [done]
  unfold Shell.begin
  rw [getThen, closed]
  rfl

theorem takeOpen (opened : s.current = some txn) :
    takeCurrent s = .ok txn {s with current := none} := by
  unfold takeCurrent
  rw [getThen, opened]
  rfl

theorem commitCloses (told : means s.fields line .commit = true) :
    (s.after line).current = none := by
  refine afterYields (P := fun t => t.current = none) ?_
  rw [executeSaid told]
  change Yields _ _ (Shell.commit s)
  unfold Shell.commit
  have took : Yields (fun _ t => t.current = none) (fun _ t => t.current = none)
      (takeCurrent s) := by
    cases opened : s.current with
    | some txn =>
      rw [takeOpen opened]
      exact rfl
    | none =>
      unfold takeCurrent
      rw [getThen, opened]
      exact opened
  refine took.andThen (fun txn t closed => ?_) (fun _ _ closed => closed)
  refine (Yields.engine (Engine.commit txn) t).andThen (fun _ u ended => ?_) (fun _ u ended => ?_)
  · obtain ⟨e, _, rfl⟩ := ended
    exact closed
  · obtain ⟨_, e, _, _, rfl⟩ := ended
    exact closed

theorem engineOk {work : Instant Engine α} {a : α} {e : Engine} (done : work s.engine = .ok a e) :
    onEngine work s = .ok a {s with engine := e} := by
  have called := Yields.engine work s
  cases ended : onEngine work s with
  | ok b t =>
    rw [ended] at called
    obtain ⟨e, same, rfl⟩ := called
    cases done.symm.trans same
    rfl
  | error cause t =>
    rw [ended] at called
    obtain ⟨_, _, _, same, _⟩ := called
    cases done.symm.trans same

theorem abortCloses (opened : s.current = some txn) (runs : s.engine.Runs txn)
    (told : means s.fields line .abort = true) :
    (s.after line).current = none ∧ Ended txn .aborted s.engine (s.after line).engine := by
  obtain ⟨e, done, ended⟩ := Engine.abortEnded runs
  have executed : execute line s =
      .ok (.text s!"ABORT {txn.text}") {s with engine := e, current := none} := by
    rw [executeSaid told]
    change Shell.abort s = _
    unfold Shell.abort
    change EStateM.bind takeCurrent _ s = _
    rw [EStateM.bind, takeOpen opened]
    change EStateM.bind (onEngine (Engine.abort txn)) _ {s with current := none} = _
    rw [EStateM.bind, engineOk (s := {s with current := none}) done]
    rfl
  unfold after
  rw [executed]
  exact ⟨rfl, ended⟩

/- Lists of a shell that has nothing under way. -/

def stored (s : Shell) : List Record :=
  match s.engine.pool.tables.get? s.table with
  | some file => file.decode s.engine.pool.storage
  | none => []

def answer (s : Shell) (line : String) : Except ShellError Reply :=
  match execute line s with
  | .ok reply _ => .ok reply
  | .error cause _ => .error cause

structure Rests (s : Shell) : Prop where
  closed : s.current = none
  calm : s.engine.pool.Calm
  known : (s.engine.pool.tables.get? s.table).isSome = true

theorem inTransactionAlone {work : TxnId → Activity Engine α} (closed : s.current = none) :
    inTransaction work s = (onEngine Engine.begin >>= fun txn => inOwn txn (work txn)) s := by
  unfold inTransaction
  rw [getThen, closed]

theorem Rests.lists (rests : s.Rests) (told : means s.fields line .scan = true) :
    s.answer line = .ok (.text (grid s.fields s.stored).text) := by
  obtain ⟨file, found⟩ := Option.isSome_iff_exists.mp rests.known
  -- the command begins a transaction of its own, lists, and commits
  let begun : Shell := {s with engine := {s.engine with ledger := s.engine.ledger.begin.2}}
  have opened : onEngine Engine.begin s = .ok s.engine.ledger.nextTxn begun := engineOk rfl
  obtain ⟨q, scanned, calm⟩ := Engine.scanCalm (e := begun.engine) rests.calm found
    s.engine.ledger.nextTxn
  have runs : Engine.Runs s.engine.ledger.nextTxn {begun.engine with pool := q} :=
    (Ledger.statusMark ..).trans (if_pos rfl)
  obtain ⟨e, committed⟩ := Engine.commitRuns calm.sturdy runs
  have attempted : onEngine (Engine.scan (some s.engine.ledger.nextTxn) s.table).attempt.settled
      begun = .ok (.ok (file.decode s.engine.pool.storage))
        {begun with engine := {begun.engine with pool := q}} := by
    refine engineOk ?_
    rw [Activity.settledAttempt, scanned]
  have ended : onEngine (Engine.commit s.engine.ledger.nextTxn)
      {begun with engine := {begun.engine with pool := q}} = .ok () {begun with engine := e} :=
    engineOk committed
  have executed : execute line s =
      .ok (.text (grid s.fields (file.decode s.engine.pool.storage)).text)
        {begun with engine := e} := by
    rw [executeSaid told]
    change Shell.scan s = _
    unfold Shell.scan
    rw [getThen]
    change EStateM.bind (inTransaction _) _ s = _
    have owned : inTransaction (fun txn => Engine.scan (some txn) s.table) s =
        .ok (file.decode s.engine.pool.storage) {begun with engine := e} := by
      rw [inTransactionAlone rests.closed]
      change EStateM.bind (onEngine Engine.begin) _ s = _
      rw [EStateM.bind, opened]
      change EStateM.bind (onEngine _) _ begun = _
      rw [EStateM.bind, attempted]
      change EStateM.bind (onEngine _) _ _ = _
      rw [EStateM.bind, ended]
      rfl
    rw [EStateM.bind, owned]
    rfl
  unfold answer stored
  rw [executed, found]

theorem StaysSturdy.knows (stays : StaysSturdy lasting s t)
    (known : (s.engine.pool.tables.get? s.table).isSome = true) :
    (t.engine.pool.tables.get? t.table).isSome = true := by
  obtain ⟨file, found⟩ := Option.isSome_iff_exists.mp known
  rw [stays.table, stays.pool.grew.tables _ _ found]
  rfl

theorem StaysSturdy.stored {kept : Shell} (stays : StaysSturdy True kept s)
    (sturdy : kept.engine.pool.Sturdy) (room : s.engine.pool.Room)
    (known : (kept.engine.pool.tables.get? kept.table).isSome = true) : s.stored = kept.stored := by
  obtain ⟨file, found⟩ := Option.isSome_iff_exists.mp known
  have later := stays.pool.grew.tables _ _ found
  have now := stays.pool.sturdy.decoded room later
  rw [stays.pool.lasts trivial room] at now
  have before := sturdy.decoded (room.before stays.pool.grew) found
  unfold Shell.stored
  rw [stays.table, found, later]
  exact now.unique before

/- From a begin to an abort. -/

/- The state in which the volumes were last flushed, or else the one that is given. -/
def lastFlushed : Shell → Shell → List String → Shell
  | kept, _, [] => kept
  | kept, s, line :: rest =>
    let t := s.after line
    lastFlushed (if means s.fields line .flush then t else kept) t rest

theorem lastFlushedNone {fields : Nat} {lines : List String}
    (none : ∀ line ∈ lines, means fields line .flush = false) {kept : Shell}
    (same : s.fields = fields) (sturdy : s.engine.pool.Sturdy) :
    lastFlushed kept s lines = kept := by
  induction lines generalizing s with
  | nil => rfl
  | cons line rest ih =>
    have first := afterSturdy sturdy line
    unfold lastFlushed
    rw [same, none line List.mem_cons_self]
    exact ih (fun other there => none other (List.mem_cons_of_mem _ there))
      (first.fields.trans same) first.pool.sturdy

theorem lastingFlushed {base kept : Shell} {lines : List String}
    (early : StaysSturdy False base kept) (since : StaysSturdy True kept s)
    (stays : ∀ before, before <+: lines → (s.afterAll before).current = some txn) :
    StaysSturdy False base (lastFlushed kept s lines) ∧
      StaysSturdy True (lastFlushed kept s lines) (s.afterAll lines) := by
  induction lines generalizing s kept with
  | nil => exact ⟨early, since⟩
  | cons line rest ih =>
    have opened : s.current = some txn := stays [] List.nil_prefix
    have still : (s.after line).current = some txn := stays [line] (List.prefix_append [line] rest)
    have first := afterSturdy since.pool.sturdy line
    have step {lasting : Prop} (holds : lasting → means s.fields line .flush = false) :
        StaysSturdy lasting s (s.after line) := by
      refine first.mono fun h => ⟨?_, holds h, ?_⟩
      · rw [opened]
        exact Option.some_ne_none txn
      · refine Bool.eq_false_iff.mpr fun told => ?_
        rw [commitCloses told] at still
        cases still
    have later : ∀ before, before <+: rest →
        ((s.after line).afterAll before).current = some txn := fun before first =>
      stays (line :: before) (List.cons_prefix_cons.mpr ⟨rfl, first⟩)
    unfold lastFlushed
    cases flush : means s.fields line .flush with
    | true =>
      exact ih (early.trans ((since.mono False.elim).trans (step False.elim)))
        (.refl first.pool.sturdy) later
    | false => exact ih early (since.trans (step fun _ => flush)) later

/- A transaction of a shell from the line that begins it to the one that aborts it, while no
other transaction runs. -/
structure Undone (s : Shell) (opening : String) (lines : List String) (closing : String) :
    Prop where
  alone : s.engine.ledger.active = []
  opens : means s.fields opening .begin = true
  stays : ∀ before, before <+: lines →
    ((s.after opening).afterAll before).current = some s.engine.ledger.nextTxn
  closes : means s.fields closing .abort = true

namespace Undone

variable {opening closing : String} {lines : List String}

theorem tidy {stray : TxnId → Prop} (undone : Undone s opening lines closing)
    (tidy : Tidy stray s.current s.engine) :
    Tidy (fun _ => False) ((s.after opening).afterAll lines).current
      ((s.after opening).afterAll lines).engine := by
  obtain ⟨closed, _, tidy⟩ := tidy.alone undone.alone
  have begun : Tidy (fun _ => False) (s.after opening).current (s.after opening).engine := by
    rw [beginOpens closed undone.opens]
    exact tidy.begin
  refine (afterAllTidy begun lines).mono fun txn stray => ?_
  obtain ⟨before, line, rest, same, _, _, left⟩ := stray
  -- whoever leaves the open transaction behind has none open afterwards
  have still := undone.stays (before ++ [line]) ⟨rest, by rw [same, List.append_assoc]; rfl⟩
  have last : (s.after opening).afterAll (before ++ [line]) =
      ((s.after opening).afterAll before).after line := List.foldl_append
  rw [last, left.1] at still
  cases still

theorem freed (undone : Undone s opening lines closing)
    (same : ((s.after opening).afterAll lines).fields = s.fields)
    (tidy : Tidy (fun _ => False) ((s.after opening).afterAll lines).current
      ((s.after opening).afterAll lines).engine) :
    (((s.after opening).afterAll lines).after closing).current = none ∧
      ∀ txn, (((s.after opening).afterAll lines).after
        closing).engine.pool.locks.heldBy txn = [] := by
  have opened := undone.stays lines List.prefix_rfl
  have told := undone.closes
  rw [← same] at told
  obtain ⟨closed, ended⟩ := abortCloses opened (tidy.runs _ opened) told
  refine ⟨closed, fun txn => ?_⟩
  by_cases own : s.engine.ledger.nextTxn = txn
  · exact own ▸ ended.none
  · rw [ended.locks txn fun same => own (Option.some.inj same)]
    by_contra held
    have here := (tidy.known txn (tidy.holders txn held)).resolve_right id
    exact own (Option.some.inj (opened.symm.trans here))

end Undone

theorem restsAlone {start : Shell} (idle : start.Idle) (sturdy : start.engine.pool.Sturdy)
    (space : 0 < start.engine.pool.capacity)
    (known : (start.engine.pool.tables.get? start.table).isSome = true) (lines : List String)
    (alone : (start.afterAll lines).engine.ledger.active = [])
    (room : (start.afterAll lines).engine.pool.Room) : (start.afterAll lines).Rests := by
  obtain ⟨closed, free, _⟩ := (afterAllTidy idle.tidy lines).alone alone
  have stays := afterAllSturdy sturdy lines
  exact ⟨closed, stays.pool.sturdy.calm room (stays.pool.grew.capacity ▸ space) free,
    stays.knows known⟩

/-- After an abort the table is listed as its volume was at the last flush since the transaction
began. Without a flush it is listed as it would have been before. -/
theorem abortRestores {start : Shell} (idle : start.Idle) (intact : start.engine.pool.Intact)
    (apart : start.engine.pool.Separate)
    (slots : ∀ table file, start.engine.pool.tables.get? table = some file →
      file.layout.slots ≤ UInt32.size)
    (spared : ∀ point, start.engine.pool.Spared point) (space : 0 < start.engine.pool.capacity)
    (known : (start.engine.pool.tables.get? start.table).isSome = true) (before : List String)
    {opening closing listing : String} {lines : List String}
    (undone : Undone (start.afterAll before) opening lines closing)
    (lists : means start.fields listing .scan = true)
    (room : ((((start.afterAll before).after opening).afterAll lines).after
      closing).engine.pool.Room) :
    let s := start.afterAll before
    let t := ((s.after opening).afterAll lines).after closing
    t.answer listing = .ok (.text (grid start.fields
      (lastFlushed (s.after opening) (s.after opening) lines).stored).text) ∧
    ((∀ line ∈ lines, means start.fields line .flush = false) →
      t.answer listing = s.answer listing) := by
  have sturdy := intact.sturdy idle.free apart slots spared
  have early := afterAllSturdy sturdy before
  have tidy := afterAllTidy idle.tidy before
  have rests := restsAlone idle sturdy space known before undone.alone
  generalize start.afterAll before = s at undone room early tidy rests
  intro _ t
  obtain ⟨closed, _⟩ := tidy.alone undone.alone
  have begun : StaysSturdy False s (s.after opening) ∧ (s.after opening).stored = s.stored := by
    rw [beginOpens closed undone.opens]
    exact ⟨⟨rfl, rfl, .refl early.pool.sturdy⟩, rfl⟩
  obtain ⟨base, work⟩ := lastingFlushed begun.1 (.refl begun.1.pool.sturdy) undone.stays
  have whole := begun.1.trans (afterAllSturdy begun.1.pool.sturdy lines)
  obtain ⟨ended, free⟩ := undone.freed whole.fields (undone.tidy tidy)
  -- the abort keeps what the volumes hold
  have last : StaysSturdy True ((s.after opening).afterAll lines) t := by
    have told := undone.closes
    rw [← whole.fields] at told
    have left := afterSturdy whole.pool.sturdy closing
    refine left.mono fun _ => ⟨?_, meansOne told (by decide), meansOne told (by decide)⟩
    rw [undone.stays lines List.prefix_rfl]
    exact Option.some_ne_none _
  have kept := early.trans base
  have final := work.trans last
  have after := kept.trans (final.mono False.elim)
  have resting : t.Rests :=
    ⟨ended, after.pool.sturdy.calm room (after.pool.grew.capacity ▸ space) free, after.knows known⟩
  have shown : t.answer listing = .ok (.text (grid start.fields
      (lastFlushed (s.after opening) (s.after opening) lines).stored).text) := by
    have listed := resting.lists (after.fields ▸ lists)
    rwa [final.stored kept.pool.sturdy room (kept.knows known), after.fields] at listed
  refine ⟨shown, fun never => ?_⟩
  have listed := (rests (room.before (base.pool.grew.trans final.pool.grew))).lists
    (early.fields ▸ lists)
  rw [shown, listed, lastFlushedNone never (begun.1.fields.trans early.fields)
    begun.1.pool.sturdy, begun.2, early.fields]

/- A flush between two inserts: the first record stays, the second one goes. -/

theorem sampleOnly {table : TableId} {file : HeapFile}
    (found : Engine.sampleStart.pool.tables.get? table = some file) : file = Pool.sampleFile := by
  replace found := (KeyMap.getInsert ..).symm.trans found
  split at found
  · exact (Option.some.inj found).symm
  · cases found

theorem sampleSpared (point : FaultPoint) : Engine.sampleStart.pool.Spared point :=
  fun table file found => by
    rw [sampleOnly found]
    exact Storage.sparesAll rfl rfl

theorem sampleIntact : Engine.sampleStart.pool.Intact := by
  refine Engine.sampleOpened.intact (fun _ page file image found held => ?_) rfl
  have home := sampleOnly found
  subst home
  rw [Pool.image?, found, Option.bind_some] at held
  have there := List.mem_of_getElem? (show [[0, 0, 0, 0, 0, 0, 0, 0]][page.number.toNat]? =
    some image from held)
  cases List.mem_singleton.mp there
  rfl

theorem sampleSturdy : Engine.sampleStart.pool.Sturdy :=
  sampleIntact.sturdy rfl Engine.sampleOpened.apart Engine.sampleOpened.slots sampleSpared

def sampleStart : Shell := ofEngine Engine.sampleStart 1 1

def sampleLines : List String := ["insert 7", "flush", "insert 9", "insert"]

def sampleBegin : Shell := sampleStart.afterAll ["insert 5"]

def sampleEnd : Shell := ((sampleBegin.after "begin").afterAll sampleLines).after "abort"

def sampleRow (number value : Nat) : Record :=
  ⟨some ⟨⟨1, .ofNat number⟩, 0⟩, [.ofNat value, 0, 0, 0]⟩

theorem sampleIdle : sampleStart.Idle := ⟨rfl, by decide +kernel, rfl⟩

theorem sampleUndone : Undone sampleBegin "begin" sampleLines "abort" := by
  refine ⟨by decide +kernel, by decide, fun before first => ?_, by decide⟩
  have each : ∀ before ∈ sampleLines.inits,
      ((sampleBegin.after "begin").afterAll before).current =
        some sampleBegin.engine.ledger.nextTxn := by decide +kernel
  exact each before ((List.mem_inits before sampleLines).mpr first)

theorem sampleEndAll : sampleEnd =
    sampleStart.afterAll ("insert 5" :: "begin" :: (sampleLines ++ ["abort"])) := by
  unfold sampleEnd sampleBegin
  simp only [afterAll, List.foldl_append, List.foldl_cons, List.foldl_nil]

theorem sampleRoom {p : Pool} (tables : p.tables = Engine.sampleStart.pool.tables)
    (few : p.storage.pages 0 < UInt32.size) : p.Room := by
  intro table file found
  rw [tables] at found
  rw [sampleOnly found]
  exact few

theorem sampleBeginRoom : sampleBegin.engine.pool.Room :=
  sampleRoom (by decide +kernel) (by decide +kernel)

theorem sampleEndRoom : sampleEnd.engine.pool.Room :=
  sampleRoom (by decide +kernel) (by decide +kernel)

theorem sampleRestored : sampleStart.Idle ∧ Undone sampleBegin "begin" sampleLines "abort" ∧
    sampleEnd.engine.pool.Room ∧
    sampleEnd.answer "scan" = .ok (.text (grid 1 [sampleRow 0 5, sampleRow 1 7]).text) := by
  have lists : means sampleStart.fields "scan" .scan = true := by decide
  have room := sampleEndRoom
  unfold sampleEnd sampleBegin at room
  have opened := Engine.sampleOpened
  have restored := (abortRestores sampleIdle sampleIntact opened.apart opened.slots
    sampleSpared (by decide) rfl ["insert 5"] sampleUndone lists room).1
  have kept : (lastFlushed (sampleBegin.after "begin") (sampleBegin.after "begin")
      sampleLines).stored = [sampleRow 0 5, sampleRow 1 7] := by decide +kernel
  unfold sampleBegin at kept
  rw [kept] at restored
  exact ⟨sampleIdle, sampleUndone, sampleEndRoom, restored⟩

/- The record that was flushed is listed after the abort, and was not before the begin. -/
theorem flushedStays : sampleStart.Idle ∧ Undone sampleBegin "begin" sampleLines "abort" ∧
    sampleEnd.answer "scan" ≠ sampleBegin.answer "scan" := by
  have rests := restsAlone sampleIdle sampleSturdy (by decide) rfl
  have begin : sampleBegin.Rests := by
    have alone : sampleBegin.engine.ledger.active = [] := by decide +kernel
    have room := sampleBeginRoom
    unfold sampleBegin at alone room ⊢
    exact rests _ alone room
  have ended : sampleEnd.Rests := by
    have alone : sampleEnd.engine.ledger.active = [] := by decide +kernel
    have room := sampleEndRoom
    rw [sampleEndAll] at alone room ⊢
    exact rests _ alone room
  have listed : sampleEnd.answer "scan" =
      .ok (.text (grid sampleEnd.fields sampleEnd.stored).text) := ended.lists (by decide)
  have before : sampleBegin.answer "scan" =
      .ok (.text (grid sampleBegin.fields sampleBegin.stored).text) :=
    begin.lists (by decide)
  have fields : sampleEnd.fields = 1 ∧ sampleBegin.fields = 1 := by decide +kernel
  have kept : sampleEnd.stored = [sampleRow 0 5, sampleRow 1 7] := by decide +kernel
  have found : sampleBegin.stored = [sampleRow 0 5] := by decide +kernel
  refine ⟨sampleIdle, sampleUndone, ?_⟩
  rw [listed, before, fields.1, fields.2, kept, found]
  intro same
  have texts : (grid 1 [sampleRow 0 5, sampleRow 1 7]).text = (grid 1 [sampleRow 0 5]).text :=
    Reply.text.inj (Except.ok.inj same)
  revert texts
  decide

end Shell
end PagedHeap
