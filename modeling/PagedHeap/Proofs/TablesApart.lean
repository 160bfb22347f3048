import PagedHeap.Proofs.Openings
import PagedHeap.Proofs.TwinRuns

/-! Tables that have nothing to do with each other, though they share a cache, a lock table and
the ends of transactions. Work on the records of one table leaves all that can be seen of another
as it was, so a run goes on there as if that work had never been asked for. -/
namespace PagedHeap

theorem Act.onOrderly {table : TableId} {act : Act} (h : act.on table) : act.orderly := by
  cases act <;> first | exact h.elim | trivial

namespace Pool

variable {α : Type} {scope : Scope} {p q : Pool} {act : Act} {table : TableId} {txn : TxnId}

/- Work outside the scope. -/

section aside

variable (aside : ¬ scope.Holds table)

include aside

theorem putAside {page : PageId} (own : page.table = table) (frame : Frame) :
    Alike scope p {p with resident := p.resident.insert page frame} := by
  have away {other : PageId} (held : scope.Holds other.table) : page ≠ other := fun same =>
    aside (own ▸ same ▸ held)
  refine ⟨rfl, fun _ _ _ _ => rfl, rfl, fun _ _ => rfl, fun other held => ?_, fun other held => ?_⟩
  · exact viewElsewhere (away held)
  · simp only [marked, KeyMap.getInsert, if_neg (away held)]

variable (able : p.Able)

include able

theorem Able.extendAside {file : HeapFile} {storage : Storage}
    (found : p.tables.get? table = some file)
    (enlarged : p.storage.Enlarged storage file.volume) : Alike scope p {p with storage} := by
  obtain ⟨_, extended, _⟩ := enlarged.fresh
    (able.sized _ _ found ▸ file.layout.sizePositive) (able.room _ _ found)
  have away {other : TableId} (held : scope.Holds other) : table ≠ other := fun same =>
    aside (same ▸ held)
  refine ⟨rfl, fun other its held known => ?_, rfl, fun page held => ?_, fun page held => ?_,
    fun _ _ => rfl⟩
  · exact (able.apart.pagesExtended found extended known).trans (if_neg (away held))
  · exact imageElsewhere able.apart found enlarged.toChangedAt (away held)
  · rw [able.viewExtended able.apart found extended, if_neg fun own => away held own.1]

theorem Able.moveAside (own : act.on table) (move : Move act p q) : Alike scope p q := by
  cases act with
  | aside | load | evict => exact able.look (by exact own) move
  | take wanted =>
    cases move with
    | take granted =>
      have same := scope.requestAside (own ▸ aside) p.locks wanted.txn wanted.access
      exact ⟨rfl, fun _ _ _ _ => rfl, same, fun _ _ => rfl, fun _ _ => rfl, fun _ _ => rfl⟩
  | unprobe txn page =>
    cases move with
    | unprobe shared =>
      have same := scope.releaseAside (own ▸ aside) p.locks txn
      exact ⟨rfl, fun _ _ _ _ => rfl, same, fun _ _ => rfl, fun _ _ => rfl, fun _ _ => rfl⟩
  | extend other =>
    cases own
    cases move with
    | extend found enlarged => exact able.extendAside aside found enlarged
  | fill =>
    cases move with
    | fill => exact putAside aside own _
  | clear =>
    cases move with
    | clear => exact putAside aside own _
  | _ => exact own.elim

theorem Able.movesAside (moves : Moves (Act.on table) p q) (room : q.Room) :
    q.Able ∧ Alike scope p q := by
  refine (moves.within (fun p q => Grew p q ∧ (p.Able → q.Room → q.Able ∧ Alike scope p q))
    (fun p => ⟨.refl p, fun able _ => ⟨able, .refl p⟩⟩) (fun p q r first second => ?_)
    fun act p q own move => ⟨move.grew, fun able room =>
      ⟨able.move (Act.onOrderly own) room move, able.moveAside aside own move⟩⟩).2 able room
  refine ⟨first.1.trans second.1, fun able room => ?_⟩
  obtain ⟨there, early⟩ := first.2 able (room.before second.1)
  obtain ⟨here, late⟩ := second.2 there room
  exact ⟨here, early.trans late⟩

end aside

/- Work on the records of one table. -/

/- Whatever comes of the work, it was done on one table. -/
def StaysOn (table : TableId) (p : Pool) : EStateM.Result Error Pool α → Prop :=
  Ends (fun _ q => Moves (Act.on table) p q) (Moves (Act.on table) p)

theorem Reaches.staysOn {kind : Act → Prop} {who : Option TxnId} {done : Pool → α → Pool → Prop}
    {work : Progress Pool α} (h : Reaches kind who done work p) (housed : p.Housed)
    (own : ∀ act, kind act → act.on table)
    (ends : ∀ m a q, done m a q → Moves (Act.on table) m q) : StaysOn table p work.settle :=
  (h.settled housed).mono
    (fun a q ended => by
      obtain ⟨m, moves, last⟩ := ended
      exact (moves.mono own).trans (ends m a q last))
    (fun _ moves => moves.mono own)

theorem insertStaysOn (housed : p.Housed) (table : TableId) (data : Bytes) :
    StaysOn table p ((insert txn table data).settled p) :=
  (insertReaches housed table data).staysOn housed (fun _ => And.right) fun _ rid _ filled =>
    .one (show Act.on table (.fill txn rid data) from filled.2) filled.1

theorem deleteStaysOn (housed : p.Housed) (rid : Rid) :
    StaysOn rid.page.table p ((delete txn (some rid)).settled p) :=
  (deleteAtReaches housed rid).staysOn housed (fun _ => And.right) fun _ _ _ cleared =>
    .one (show Act.on rid.page.table (.clear txn rid) from rfl) cleared

theorem scanStaysOn (housed : p.Housed) (who : Option TxnId) (file : HeapFile) :
    StaysOn file.table p ((file.scan who).settled p) :=
  (walkReaches housed UInt32.size 0).staysOn housed (fun _ => And.right) fun _ _ _ same =>
    same.1 ▸ .refl

end Pool

namespace Engine

open Pool (Moves StaysOn)

variable {α β : Type} {scope : Scope} {e f : Engine} {home : TableId}

structure Worked (home : TableId) (e e' : Engine) : Prop where
  moves : Moves (Act.on home) e.pool e'.pool
  ledger : e'.ledger = e.ledger

def Works (home : TableId) (e : Engine) : EStateM.Result Error Engine α → Prop :=
  Ends (fun _ e' => Worked home e e') (Worked home e)

theorem Works.answer {work : Instant Engine α} (h : Works home e (work e)) (answer : α → β) :
    Works home e ((work >>= fun a => pure (answer a)) e) :=
  Ends.andThen h (fun _ _ ended => ended) fun _ lost => lost

theorem onPoolWorks {work : Instant Pool α} (h : StaysOn home e.pool (work e.pool)) :
    Works home e (poolPart.instant work e) :=
  Ends.inPart (h.mono (fun _ _ moves => ⟨moves, rfl⟩) (fun _ moves => ⟨moves, rfl⟩))

theorem scanWorks (housed : e.pool.Housed) (who : Option TxnId) (home : TableId) :
    Works home e ((table home >>= fun file => poolPart.instant (file.scan who).settled) e) := by
  have still : Worked home e e := ⟨.refl, rfl⟩
  refine (tableEnds e home).andThen (fun file m found => ?_) fun _ same => same ▸ still
  obtain ⟨rfl, found⟩ := found
  obtain rfl := housed.named home file found
  exact onPoolWorks (Pool.scanStaysOn housed who file)

theorem requestWorks (housed : e.pool.Housed) {r : Request} (own : r.table? = some home) :
    Works home e (r.work.settled e) := by
  cases r with
  | insert txn table values =>
    cases own
    simp only [Request.work, Activity.settledBind, Activity.settledPure, insert,
      Activity.settledWithin]
    exact (onPoolWorks (Pool.insertStaysOn housed home _)).answer _
  | delete txn rid =>
    cases own
    simp only [Request.work, Activity.settledBind, Activity.settledPure, delete,
      Activity.settledWithin]
    exact (onPoolWorks (Pool.deleteStaysOn housed rid)).answer _
  | scan who table =>
    cases own
    simp only [Request.work, Activity.settledBind, Activity.settledPure, scan, Activity.settledLift,
      Activity.settledWithin]
    exact (scanWorks housed who home).answer _
  | begin | commit | abort => cases own

theorem choreAside (twins : Twins scope e f) (aside : ¬ scope.Holds home) {chore : Chore}
    (own : chore.table? = some home) (room : (chore.answer e).2.pool.Room) :
    Twins scope (chore.answer e).2 f := by
  cases chore with
  | request r =>
    have worked : Worked home e (Chore.answer (.request r) e).2 :=
      answerLeaves (requestWorks twins.pools.left.toHoused own)
    obtain ⟨left, alike⟩ := twins.pools.left.movesAside aside worked.moves room
    exact ⟨⟨left, twins.pools.right, alike.symm.trans twins.pools.alike⟩,
      twins.ledger.trans worked.ledger.symm⟩
  | flush | shutdown => cases own

end Engine

namespace Chore

variable {chore : Chore} {table : TableId}

def regards (table : TableId) (chore : Chore) : Bool := chore.table?.all (· = table)

theorem regarded (regards : chore.regards table = true) :
    ∀ other ∈ chore.table?, other = table := by
  intro other own
  rw [Chore.regards, Option.mem_def.mp own] at regards
  exact of_decide_eq_true regards

theorem unregarded (regards : chore.regards table = false) :
    ∃ other, chore.table? = some other ∧ other ≠ table := by
  unfold Chore.regards at regards
  cases own : chore.table? with
  | none =>
    rw [own] at regards
    cases regards
  | some other =>
    rw [own] at regards
    exact ⟨other, rfl, of_decide_eq_false regards⟩

end Chore

namespace Engine

variable {e f : Engine} {table : TableId}

/- Of the answers to some chores, those to the chores that regard the table. -/
def regarding (table : TableId) (chores : List Chore) (answers : List (Except Error Answer)) :
    List (Except Error Answer) :=
  ((chores.zip answers).filter (·.1.regards table)).map (·.2)

theorem regardingServed (chore : Chore) (rest : List Chore) (e : Engine) :
    regarding table (chore :: rest) (serve (chore :: rest) e).1 =
      if chore.regards table then
        (chore.answer e).1 :: regarding table rest (serve rest (chore.answer e).2).1
      else regarding table rest (serve rest (chore.answer e).2).1 := by
  unfold regarding
  change ((((chore, (chore.answer e).1) :: rest.zip (serve rest (chore.answer e).2).1)).filter
    _).map _ = _
  rw [List.filter_cons]
  split <;> rfl

theorem serveApart (twins : Twins (.table table) e f) (chores : List Chore)
    (placed : ∀ answer ∈ (serve chores e).1, Placed answer)
    (placed' : ∀ answer ∈ (serve (chores.filter (·.regards table)) f).1, Placed answer)
    (room : (serve chores e).2.pool.Room) :
    regarding table chores (serve chores e).1 = (serve (chores.filter (·.regards table)) f).1 ∧
      Twins (.table table) (serve chores e).2 (serve (chores.filter (·.regards table)) f).2 := by
  -- on the longer run; where other tables are worked on, the shorter one stays where it is
  induction chores generalizing e f with
  | nil => exact ⟨rfl, twins⟩
  | cons chore rest ih =>
    have first := answerFurther twins.pools.left.toGuarded chore
    have roomy := room.before (serveFurther first.1 rest).2
    have later := fun answer told => placed answer (List.mem_cons_of_mem _ told)
    rw [regardingServed]
    cases regards : chore.regards table with
    | true =>
      rw [List.filter_cons_of_pos regards] at placed' ⊢
      obtain ⟨same, there⟩ := answerAgree twins chore (Chore.regarded regards) roomy
        (placed _ List.mem_cons_self) (placed' _ List.mem_cons_self)
      obtain ⟨others, last⟩ := ih there later
        (fun answer told => placed' answer (List.mem_cons_of_mem _ told)) room
      exact ⟨congrArg₂ List.cons same others, last⟩
    | false =>
      have without : ¬ chore.regards table = true := Bool.eq_false_iff.mp regards
      rw [List.filter_cons_of_neg without] at placed' ⊢
      obtain ⟨other, own, aside⟩ := Chore.unregarded regards
      exact ih (choreAside twins aside own roomy) later placed' room

/- One table with the same pages in its volume and the same locks on them, and the same
transactions. -/
structure MatchesOn (table : TableId) (e f : Engine) : Prop where
  file : f.pool.tables.get? table = e.pool.tables.get? table
  pages : ∀ file, e.pool.tables.get? table = some file →
    f.pool.storage.pages file.volume = e.pool.storage.pages file.volume ∧
      ∀ n, f.pool.storage.page? file.volume n = e.pool.storage.page? file.volume n
  locks : f.pool.locks.on table = e.pool.locks.on table
  ledger : f.ledger = e.ledger

/-- Tables do not interfere: whatever is asked of an engine, one thing after the other, what
regards one table is answered as if no records of other tables had been asked for, and the table
ends with the same pages and locks, as long as there are places for all pages either way and the
pages of every table can be counted in words. -/
theorem tablesApart (ready : e.Ready) (ready' : f.Ready) (same : Matches e f) (table : TableId)
    (chores : List Chore) (placed : ∀ answer ∈ (serve chores e).1, Placed answer)
    (placed' : ∀ answer ∈ (serve (chores.filter (·.regards table)) f).1, Placed answer)
    (room : (serve chores e).2.pool.Room) :
    regarding table chores (serve chores e).1 = (serve (chores.filter (·.regards table)) f).1 ∧
      MatchesOn table (serve chores e).2 (serve (chores.filter (·.regards table)) f).2 := by
  have grew := (serveFurther ready.unused.guarded chores).2
  obtain ⟨answers, last⟩ :=
    serveApart (ready.twins ready' same (room.before grew)) chores placed placed' room
  exact ⟨answers, congrArg (·.get? table) last.pools.alike.tables,
    fun _ found => last.volumes rfl found, last.pools.alike.locks, last.ledger⟩

/- A transaction works on both tables, and a second one comes too late on either of them. -/

theorem sampleTablesReady : sampleTables.Ready := by
  refine ⟨sampleTablesUnused, fun point table file found => ?_,
    fun _ page file image found held => ?_⟩
  · obtain rfl | rfl := sampleKnown found <;> exact Storage.sparesAll rfl rfl
  · rw [Pool.image?, found, Option.bind_some] at held
    obtain rfl | rfl := sampleKnown found
    · have there := List.mem_of_getElem? (show [[0, 0, 0, 0, 0, 0, 0, 0]][page.number.toNat]? =
        some image from held)
      cases List.mem_singleton.mp there
      rfl
    · have there := List.mem_of_getElem? (show [[1, 7, 0, 0, 0, 0, 0, 0]][page.number.toNat]? =
        some image from held)
      cases List.mem_singleton.mp there
      rfl

def sampleEdits : List Chore :=
  [.request .begin, .request (.insert 1 1 [5]), .request (.insert 1 2 [6]), .request .begin,
    .request (.scan (some 2) 2), .request (.insert 2 1 [9]), .flush, .request (.commit 1),
    .request (.delete 2 ⟨⟨2, 0⟩, 0⟩), .request (.scan none 1), .shutdown, .request (.commit 2)]

theorem sampleTablesRoom {p : Pool} (tables : p.tables = sampleTables.pool.tables)
    (first : p.storage.pages 0 = 2) (second : p.storage.pages 1 = 1) : p.Room := by
  intro table file found
  rw [tables] at found
  obtain rfl | rfl := sampleKnown found
  · change p.storage.pages 1 < _
    rw [second]
    decide
  · change p.storage.pages 0 < _
    rw [first]
    decide

theorem sampleTablesApart : sampleTables.Ready ∧ Matches sampleTables sampleTables ∧
    (sampleEdits.filter (·.regards 1)).length + 3 = sampleEdits.length ∧
    regarding 1 sampleEdits (serve sampleEdits sampleTables).1 =
      (serve (sampleEdits.filter (·.regards 1)) sampleTables).1 ∧
    MatchesOn 1 (serve sampleEdits sampleTables).2
      (serve (sampleEdits.filter (·.regards 1)) sampleTables).2 := by
  have same : Matches sampleTables sampleTables := ⟨rfl, fun _ _ _ => ⟨rfl, fun _ => rfl⟩, rfl, rfl⟩
  have room : (serve sampleEdits sampleTables).2.pool.Room :=
    sampleTablesRoom (by decide +kernel) (by decide +kernel) (by decide +kernel)
  refine ⟨sampleTablesReady, same, rfl, ?_⟩
  exact tablesApart sampleTablesReady sampleTablesReady same 1 sampleEdits (by decide +kernel)
    (by decide +kernel) room

/- Where pages cannot be counted in words the look at the second table does tell. -/
theorem crowdedTablesMeet : (crowdedTables 1).Ready ∧
    Matches (crowdedTables 1) (crowdedTables 1) ∧
    (∀ answer ∈ (serve crowdedChores (crowdedTables 1)).1, Placed answer) ∧
    (∀ answer ∈ (serve (crowdedChores.filter (·.regards 1)) (crowdedTables 1)).1,
      Placed answer) ∧
    (regarding 1 crowdedChores (serve crowdedChores (crowdedTables 1)).1).getLast? =
      some (.ok (.placed ⟨⟨1, 0⟩, 0⟩)) ∧
    (serve (crowdedChores.filter (·.regards 1)) (crowdedTables 1)).1.getLast? =
      some (.ok (.placed ⟨⟨1, 0⟩, 1⟩)) := by
  have same : Matches (crowdedTables 1) (crowdedTables 1) :=
    ⟨rfl, fun _ _ _ => ⟨rfl, fun _ => rfl⟩, rfl, rfl⟩
  exact ⟨crowdedReady 1, same, by decide +kernel, by decide +kernel, by decide +kernel,
    by decide +kernel⟩

end Engine
end PagedHeap
