import PagedHeap.Proofs.CacheLaws
import PagedHeap.Proofs.Isolation

/-! What the answers of an engine promise, in every run of requests, whatever the order in
which waiting ones go on: what is committed lasts and nothing else does, and a transaction
reads what is committed and what it has done itself. -/
namespace PagedHeap
namespace Engine

open Pool (Moves Undisturbed Did Tells Reaches Scanned Settled)

/- Records are worked on for transactions that run. -/
def service : Service Engine Request Answer where
  txn? := Request.txn?
  work := Request.work
  Admits r e := ∀ txn, r.user? = some txn → e.ledger.status? txn = some .running

def Stretch (r : Request) (e e' : Engine) : Prop := Moves (Act.seeks r.txn?) e.pool e'.pool

def Others (r : Request) (e e' : Engine) : Prop := Undisturbed r.txn? e.pool e'.pool

def Done (r : Request) (e : Engine) (a : Answer) (e' : Engine) : Prop := Did r a e.pool e'.pool

variable {e : Engine} {r : Request}

theorem withinMeets {α : Type} {work : Activity Pool α} {done : Pool → α → Pool → Prop}
    {answer : α → Answer}
    (h : (work e.pool).Meets (Moves (Act.seeks r.txn?)) (Undisturbed r.txn?) done e.pool)
    (did : ∀ p a q, done p a q → Did r (answer a) p q) :
    (work.within poolPart e).Meets (Stretch r) (Others r)
      (fun e a e' => Done r e (answer a) e') e :=
  (Progress.Meets.inPart h).mono (fun _ _ same => same.1) (fun _ _ same => same)
    (fun p a q same => did p.pool a q.pool same.1)

theorem answerMeets {α : Type} {work : Progress Engine α} {answer : α → Answer}
    (h : work.Meets (Stretch r) (Others r) (fun e a e' => Done r e (answer a) e') e) :
    (work.andThen fun a e => .ended (.ok (answer a) e)).Meets (Stretch r) (Others r) (Done r) e :=
  h.andThen fun _ _ _ did => did

theorem tableEnds (e : Engine) (id : TableId) :
    Ends (fun file e' => e' = e ∧ e.pool.tables.get? id = some file) (· = e) (table id e) :=
  Ends.inPart ((Pool.tableEnds e.pool id).mono
    (fun _ _ found => ⟨by rw [found.1]; rfl, found.2⟩) (fun _ lost => by rw [lost.1]; rfl))

theorem tableKnown {id : TableId} {file : HeapFile}
    (found : e.pool.tables.get? id = some file) : table id e = .ok file e :=
  congrArg (poolPart.outcome e) (Pool.tableFound found)

theorem tableMeets {α : Type} (id : TableId) {next : HeapFile → Activity Engine α}
    {stretch others : Engine → Engine → Prop} {done : Engine → α → Engine → Prop}
    (still : stretch e e) (rest : ∀ file, e.pool.tables.get? id = some file →
      (next file e).Meets stretch others done e) :
    ((Progress.ended (table id e)).andThen next).Meets stretch others done e := by
  have looked := tableEnds e id
  cases found : table id e with
  | error cause e' =>
    rw [found] at looked
    exact looked ▸ still
  | ok file e' =>
    rw [found] at looked
    obtain ⟨rfl, known⟩ := looked
    exact rest file known

theorem finishEnds {txn : TxnId} {work : Instant Pool Unit} {status : Status}
    {done lost : Pool → Prop} (h : Ends (fun _ q => done q) lost (work e.pool)) :
    Ends (fun _ e' => e.ledger.status? txn = some .running ∧ done e'.pool ∧
        e'.ledger = e.ledger.mark txn status)
      (fun e' => (e.ledger.status? txn ≠ some .running ∧ e' = e) ∨
        (e.ledger.status? txn = some .running ∧ lost e'.pool ∧ e'.ledger = e.ledger))
      (finish txn work status e) := by
  change Ends _ _ ((demand Engine (e.ledger.checkRunning txn) >>= fun _ =>
    onPool work >>= fun _ => modify fun e => {e with ledger := e.ledger.mark txn status}) e)
  by_cases runs : e.ledger.status? txn = some .running
  · have worked : Ends (fun _ m => done m.pool ∧ m.ledger = e.ledger)
        (fun m => lost m.pool ∧ m.ledger = e.ledger) (onPool work e) :=
      Ends.inPart (h.mono (fun _ _ ended => ⟨ended, rfl⟩) (fun _ failed => ⟨failed, rfl⟩))
    rw [Ledger.checkRunning, runs]
    refine worked.andThen (fun _ m ended => ⟨rfl, ended.1, ?_⟩) (fun _ failed => .inr ⟨rfl, failed⟩)
    exact congrArg (Ledger.mark · txn status) ended.2
  · obtain ⟨cause, refused⟩ := Ledger.refused runs
    rw [refused]
    exact .inl ⟨runs, rfl⟩

theorem instantMeets {α : Type} {work : Instant Engine α} {answer : α → Answer}
    (h : Ends (fun a e' => Did r (answer a) e.pool e'.pool) (· = e) (work e)) :
    (Progress.ended (work e)).Meets (Stretch r) (Others r)
      (fun e a e' => Done r e (answer a) e') e :=
  Progress.meetsEnded (h.mono (fun _ _ did => did) (fun _ same => same ▸ Moves.refl))

theorem scanMeets (orderly : e.pool.Orderly) (who : Option TxnId) (table : TableId) :
    (scan who table e).Meets (Stretch (.scan who table)) (Others (.scan who table))
      (fun e records e' => Done (.scan who table) e (.listed records) e') e := by
  refine tableMeets table .refl fun file known => ?_
  obtain rfl := orderly.named table file known
  cases who with
  | none =>
    refine withinMeets ((Pool.walkReaches orderly.toHoused UInt32.size 0).meets
      (fun _ own => Act.readsSeeks own.1) fun _ _ others => others.toInterlude)
      fun p records q ended => ?_
    obtain ⟨m, moves, rfl, _⟩ := ended
    exact .scan moves nofun
  | some txn =>
    refine withinMeets ((Pool.scanMeets orderly known).mono
      (fun _ _ moves => moves.asSeeks) (fun _ _ same => same)
      (fun _ _ _ same => same)) fun p records q ended => ?_
    refine .scan ended.1.asSeeks fun other same => ?_
    cases same
    exact ended.2

theorem requestMeets (orderly : e.pool.Orderly) (r : Request) :
    (r.work e).Meets (Stretch r) (Others r) (Done r) e := by
  cases r with
  | begin => exact Did.begin
  | insert txn table values =>
    refine answerMeets (withinMeets ((Pool.insertReaches orderly.toHoused table _).meets
      (fun _ => And.left) fun _ _ others => others.toInterlude) fun p rid q ended => ?_)
    obtain ⟨m, moves, filled⟩ := ended
    exact .insert moves filled.1
  | delete txn rid =>
    refine answerMeets (withinMeets ((Pool.deleteReaches orderly.toHoused (some rid)).meets
      (fun _ same => same) fun _ _ others => others.toInterlude) fun p _ q ended => ?_)
    obtain ⟨m, moves, place, same, cleared⟩ := ended
    cases same
    exact .delete moves cleared
  | scan who table => exact answerMeets (scanMeets orderly who table)
  | commit txn =>
    exact answerMeets (instantMeets ((finishEnds (orderly.commitEnds txn)).mono
      (fun _ _ ended => .commit ended.2.1) (fun _ failed => failed.elim And.right (·.2.1.elim))))
  | abort txn =>
    exact answerMeets (instantMeets ((finishEnds (orderly.abortEnds txn)).mono
      (fun _ _ ended => .abort ended.2.1) (fun _ failed => failed.elim And.right (·.2.1.elim))))

/- Every list that a transaction was given said what was committed then and what it had
done itself. -/
def Sees (base : Rows) (h : Log) : Prop :=
  ∀ later before txn table records,
    h = later ++ (.scan (some txn) table, .ok (.listed records)) :: before →
      (base.replay (Log.own txn before ++ Log.committed before)).Listed table records

theorem Sees.cons {base : Rows} {h : Log} {event : Event} (sees : Sees base h)
    (latest : ∀ txn table records, event = (.scan (some txn) table, .ok (.listed records)) →
      (base.replay (Log.own txn h ++ Log.committed h)).Listed table records) :
    Sees base (event :: h) := by
  intro later before txn table records same
  cases later with
  | nil =>
    obtain ⟨rfl, rfl⟩ := List.cons.inj same
    exact latest txn table records rfl
  | cons first rest => exact sees rest before txn table records (List.cons.inj same).2

structure Lawful (start : Pool) (h : Log) (e : Engine) : Prop where
  orderly : e.pool.Orderly
  grew : Pool.Grew start e.pool
  tells : e.pool.Room → Tells start.durable h e.pool
  sees : e.pool.Room → Sees start.durable h

variable {start : Pool} {h : Log} {e' : Engine}

theorem Lawful.stretch (lawful : Lawful start h e) (moves : Stretch r e e') :
    Lawful start h e' where
  orderly := lawful.orderly.sought moves
  grew := lawful.grew.trans moves.grew
  tells room := (lawful.tells (room.before moves.grew)).seeks lawful.orderly moves room
  sees room := lawful.sees (room.before moves.grew)

theorem Lawful.failed (lawful : Lawful start h e) (r : Request) (cause : Error) :
    Lawful start ((r, .error cause) :: h) e where
  orderly := lawful.orderly
  grew := lawful.grew
  tells room := (lawful.tells room).ofLog
    (Log.ownSame (by cases r <;> rfl) (by cases r <;> rfl)) (Log.committedSame (by cases r <;> rfl))
  sees room := (lawful.sees room).cons nofun

theorem Lawful.done {a : Answer} (lawful : Lawful start h e) (did : Done r e a e') :
    Lawful start ((r, .ok a) :: h) e' where
  orderly := Did.orderly did lawful.orderly
  grew := lawful.grew.trans (Did.grew did)
  tells room := Did.tells did (lawful.tells (room.before (Did.grew did))) lawful.orderly room
  sees room := by
    have before := room.before (Did.grew did)
    refine (lawful.sees before).cons fun txn table records same => ?_
    cases same
    exact Did.listed did (lawful.tells before) lawful.orderly room

theorem lawOfEngine (start : Pool) : service.Law (Lawful start) Stretch Others Done where
  works r lawful _ := requestMeets lawful.orderly r
  stops _ lawful moves := lawful.stretch moves
  fails r cause lawful moves := (lawful.stretch moves).failed r cause
  ends _ _ lawful did := lawful.done did
  idle _ lawful := .refl lawful.orderly
  join _ _ _ _ first second := Undisturbed.trans first second
  aside _ _ lawful free moves := lawful.orderly.undisturbed moves free
  asideDone _ _ _ lawful free did := Did.undisturbed did lawful.orderly free

end Engine

namespace Pool

/- A pool with tables on which nothing has been done yet. The volumes may hold anything; calls
to write go well and pages that are added are blank, other calls may go wrong in any way. -/
structure Opened (p : Pool) : Prop where
  housed : p.Housed
  apart : p.Separate
  resident : p.resident = .empty
  locks : p.locks = .empty
  slots : ∀ table file, p.tables.get? table = some file → file.layout.slots ≤ UInt32.size
  writes : p.Spared .write
  fills : p.Spared .fill

namespace Opened

variable {p : Pool}

theorem orderly (opened : p.Opened) : p.Orderly where
  toHoused := opened.housed
  faithful := by
    intro _ page frame present
    rw [opened.resident] at present
    cases present
  apart := opened.apart
  writes := opened.writes
  fills := opened.fills
  slots := opened.slots
  coherent := by
    rw [opened.locks]
    exact LockTable.emptyCoherent
  owned := by
    intro page frame txn present
    rw [opened.resident] at present
    cases present

theorem tells (opened : p.Opened) : Tells p.durable [] p where
  lasts := rfl
  seen := by
    intro txn rid owns
    rw [opened.locks] at owns
    cases owns
  free rid _ := by
    refine rowsOfSame rfl (viewAbsent ?_)
    rw [opened.resident]
    rfl
  mine := nofun

theorem new (config : Config) (storage : Storage) (draws : List Nat) :
    Opened {ofConfig config storage with draws} where
  housed := (newSound config storage draws).toHoused
  apart := nofun
  resident := rfl
  locks := rfl
  slots := nofun
  writes := nofun
  fills := nofun

theorem register (opened : p.Opened) {file : HeapFile} (fresh : p.tables.get? file.table = none)
    (fits : p.Fits file) (slots : file.layout.slots ≤ UInt32.size)
    (writes : p.storage.Spares file.volume .write) (fills : p.storage.Spares file.volume .fill) :
    Opened {p with tables := p.tables.insert file.table file} where
  housed := opened.housed.move (.register fresh fits.1)
  apart := opened.apart.register fits
  resident := opened.resident
  locks := opened.locks
  slots table other found :=
    (KeyMap.insertSource found).elim (fun new => new ▸ slots) (opened.slots table other)
  writes table other found :=
    (KeyMap.insertSource found).elim (fun new => new ▸ writes) (opened.writes table other)
  fills table other found :=
    (KeyMap.insertSource found).elim (fun new => new ▸ fills) (opened.fills table other)

end Opened
end Pool

namespace Engine

variable {start : Engine} {h : Log} {t : Traffic Engine Request Answer}

theorem lawfulRun (opened : start.pool.Opened) (run : service.Run start h t) :
    Lawful start.pool h t.state :=
  ((lawOfEngine start.pool).run ⟨opened.orderly, .refl _, fun _ => opened.tells,
    fun _ _ _ _ _ _ same => by simp at same⟩ run).holds

/-- At every moment of every run the volumes alone hold exactly what they held at first and
the changes of the transactions whose commit was answered, in the order of the commits. -/
theorem commitsLast (opened : start.pool.Opened) (run : service.Run start h t)
    (room : t.state.pool.Room) {table : TableId} {file : HeapFile}
    (found : start.pool.tables.get? table = some file) :
    (start.pool.durable.replay h.committed).Listed table (file.decode t.state.pool.storage) := by
  have lawful := lawfulRun opened run
  have told := lawful.tells room
  have decoded := lawful.orderly.decoded room (lawful.grew.tables table file found)
  rwa [told.lasts] at decoded

/- Two transactions, of which the first commits: the page it has filled is full, so the second
one adds a page, and then looks at both. -/

def sampleStart : Engine :=
  ⟨{pageSize := 8, poolSize := 2}, {Pool.ofConfig {poolSize := 2} Pool.sampleStorage with
    draws := [], tables := KeyMap.empty.insert 1 Pool.sampleFile}, .empty, 2⟩

theorem sampleOpened : sampleStart.pool.Opened := by
  have fits : Pool.Fits {Pool.ofConfig {poolSize := 2} Pool.sampleStorage with draws := []}
      Pool.sampleFile := ⟨rfl, nofun⟩
  exact (Pool.Opened.new {poolSize := 2} Pool.sampleStorage []).register rfl fits (by decide)
    (Storage.sparesAll rfl rfl) (Storage.sparesAll rfl rfl)

def sampleCommit : Log × Traffic Engine Request Answer :=
  service.next (.commit 1) (service.next (.insert 1 1 [7])
    (service.next .begin ([], ⟨sampleStart, []⟩)))

def sampleInsert : Log × Traffic Engine Request Answer :=
  service.next (.insert 2 1 [9]) (service.next .begin sampleCommit)

def sampleLook : Log × Traffic Engine Request Answer :=
  service.next (.scan (some 2) 1) sampleInsert

theorem sampleInsertRun : service.Run sampleStart sampleInsert.1 sampleInsert.2 := by
  have first : service.Run sampleStart sampleCommit.1 sampleCommit.2 := by
    refine .alone service (.alone service (.alone service .start .begin nofun rfl)
      (.insert 1 1 [7]) ?_ rfl) (.commit 1) nofun rfl
    rintro _ ⟨⟩
    rfl
  refine .alone service (.alone service first .begin nofun rfl) (.insert 2 1 [9]) ?_ rfl
  rintro _ ⟨⟩
  rfl

theorem sampleRoom {p : Pool} (tables : p.tables = sampleStart.pool.tables)
    (pages : p.storage.pages 0 = 2) : p.Room := by
  intro table file found
  rw [tables] at found
  replace found := (KeyMap.getInsert ..).symm.trans found
  split at found
  · cases found
    rw [show Pool.sampleFile.volume = 0 from rfl, pages]
    decide
  · cases found

theorem sampleCommitLasts : service.Run sampleStart sampleInsert.1 sampleInsert.2 ∧
    (sampleStart.pool.durable.replay [(⟨⟨1, 0⟩, 0⟩, some [7, 0, 0, 0])]).Listed 1
      (Pool.sampleFile.decode sampleInsert.2.state.pool.storage) :=
  ⟨sampleInsertRun, commitsLast sampleOpened sampleInsertRun (sampleRoom rfl rfl) rfl⟩

/-- In every run, the list that a transaction is given when it scans a table is exactly what
was held at first, the changes committed before and the changes it has made itself. -/
theorem scansIsolate (opened : start.pool.Opened) (run : service.Run start h t)
    (room : t.state.pool.Room) {later before : Log} {txn : TxnId} {table : TableId}
    {records : List Record}
    (listed : h = later ++ (.scan (some txn) table, .ok (.listed records)) :: before) :
    (start.pool.durable.replay (before.own txn ++ before.committed)).Listed table records :=
  (lawfulRun opened run).sees room later before txn table records listed

theorem sampleLookIsolates : service.Run sampleStart sampleLook.1 sampleLook.2 ∧
    (sampleStart.pool.durable.replay
      [(⟨⟨1, 1⟩, 0⟩, some [9, 0, 0, 0]), (⟨⟨1, 0⟩, 0⟩, some [7, 0, 0, 0])]).Listed 1
      [⟨some ⟨⟨1, 0⟩, 0⟩, [7, 0, 0, 0]⟩, ⟨some ⟨⟨1, 1⟩, 0⟩, [9, 0, 0, 0]⟩] := by
  have run : service.Run sampleStart sampleLook.1 sampleLook.2 := by
    refine .alone service sampleInsertRun (.scan (some 2) 1) ?_ rfl
    rintro _ ⟨⟩
    rfl
  have listed : sampleLook.1 = [] ++ (Request.scan (some 2) 1, .ok (Answer.listed
      [⟨some ⟨⟨1, 0⟩, 0⟩, [7, 0, 0, 0]⟩, ⟨some ⟨⟨1, 1⟩, 0⟩, [9, 0, 0, 0]⟩])) ::
        sampleInsert.1 := rfl
  exact ⟨run, scansIsolate sampleOpened run (sampleRoom rfl rfl) listed⟩

/- A table of one page, on a volume that may fail. -/

def sampleVolume (image : Bytes) (script : List Fault) : Storage :=
  ⟨.empty "", [⟨8, .memory [image], [], script, []⟩]⟩

def sampleTable (image : Bytes) (script : List Fault) : Engine :=
  {sampleStart with pool := {sampleStart.pool with storage := sampleVolume image script}}

end Engine
end PagedHeap
