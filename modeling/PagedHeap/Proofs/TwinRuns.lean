import PagedHeap.Proofs.ShellAborts
import PagedHeap.Proofs.TwinCalls

/-! Engines that only their caches tell apart. They give the same answers to the same chores, one
after the other, and end with the same volumes, locks and transactions, whatever the size of the
caches and whichever pages leave them, as long as neither runs out of places. -/
namespace PagedHeap

/- What an engine can be asked to do, once its tables are open. -/
inductive Chore where
  | request (r : Request)
  | flush
  | shutdown

namespace Chore

def work : Chore → Instant Engine Answer
  | .request r => r.work.settled
  | .flush => do
    Engine.flush
    return .done
  | .shutdown => do
    Engine.shutdown
    return .done

def answer (chore : Chore) (e : Engine) : Except Error Answer × Engine :=
  match chore.work e with
  | .ok a e => (.ok a, e)
  | .error cause e => (.error cause, e)

end Chore

/- The table whose records are asked for. -/

def Request.table? : Request → Option TableId
  | .insert _ table _ | .scan _ table => some table
  | .delete _ rid => some rid.page.table
  | .begin | .commit _ | .abort _ => none

def Chore.table? : Chore → Option TableId
  | .request r => r.table?
  | .flush | .shutdown => none

namespace Engine

open Pool (Grew Respects Guarded Room)

variable {α β : Type} {scope : Scope} {e f : Engine} {txn : TxnId}

def serve : List Chore → Engine → List (Except Error Answer) × Engine
  | [], e => ([], e)
  | chore :: rest, e =>
    let (answer, e) := chore.answer e
    let (answers, e) := serve rest e
    (answer :: answers, e)

/- What chores keep. -/

def Further (e e' : Engine) : Prop := e'.pool.Guarded ∧ Grew e.pool e'.pool

theorem Further.refl (guarded : e.pool.Guarded) : Further e e := ⟨guarded, .refl _⟩

theorem Further.trans {e e' e'' : Engine} (first : Further e e') (second : Further e' e'') :
    Further e e'' := ⟨second.1, first.2.trans second.2⟩

theorem Behaves.further {o : Operation} {done : α → Pool → Pool → Prop} {work : Progress Engine α}
    (guarded : e.pool.Guarded) (h : Behaves o done work e)
    (told : ∀ a p q, done a p q → ∃ response, o.Done response p q) :
    Ends (fun _ e' => Further e e') (Further e) work.settle := by
  have mild {e e' : Engine} (guarded : e.pool.Guarded)
      (moves : Pool.Moves o.kind e.pool e'.pool) : Further e e' :=
    ⟨guarded.mild (moves.mono fun _ => Operation.kindMild), moves.grew⟩
  refine (Progress.Meets.settled (fun e => e.pool.Guarded) (fun _ => .refl) (fun _ _ _ => .trans)
    (fun _ _ there moves => (mild there moves).1) (fun _ there => .refl there) guarded h).mono
    (fun a e' ended => ?_) (fun _ moves => mild guarded moves)
  obtain ⟨m, moves, done⟩ := ended
  obtain ⟨_, done⟩ := told a _ _ done
  have first := mild guarded moves
  exact first.trans ⟨done.guarded first.1,
    (show Pool.Respects none m.pool e'.pool from done.respects first.1 fun _ _ => nofun).grew⟩

theorem choreFurther (guarded : e.pool.Guarded) (chore : Chore) :
    Ends (fun _ e' => Further e e') (Further e) (chore.work e) := by
  have asked {e : Engine} (guarded : e.pool.Guarded) (r : Request) :
      Ends (fun _ e' => Further e e') (Further e) (r.work.settled e) :=
    (requestBehaves guarded r).further guarded fun a _ _ done => ⟨.answered a, done⟩
  have flushes {e : Engine} (guarded : e.pool.Guarded) :
      Ends (fun _ e' => Further e e') (Further e) (flush e) :=
    (flushBehaves guarded).further guarded fun _ _ _ done => ⟨.flushed, done⟩
  have done {work : Instant Engine Unit}
      (h : Ends (fun _ e' => Further e e') (Further e) (work e)) :
      Ends (fun _ e' => Further e e') (Further e)
        ((work >>= fun _ => (pure .done : Instant Engine Answer)) e) :=
    h.andThen (fun _ _ further => further) fun _ lost => lost
  cases chore with
  | request r => exact asked guarded r
  | flush => exact done (flushes guarded)
  | shutdown =>
    refine done ((Ends.forEach (fun _ e' => Further e e') (fun _ txn e' _ before => ?_)
      [] e (.refl guarded)).andThen (fun _ m aborted => ?_) fun _ lost => lost)
    · have aborts := asked before.1 (.abort txn)
      simp only [Request.work, Activity.settledBind, Activity.settledLift] at aborts
      cases ended : abort txn e' with
      | ok a m =>
        rw [okThen ended] at aborts
        exact before.trans aborts
      | error cause m =>
        rw [errorThen ended] at aborts
        exact before.trans aborts
    · exact (flushes aborted.1).mono (fun _ _ later => aborted.trans later)
        fun _ later => aborted.trans later

theorem answerLeaves {left : Engine → Prop} {chore : Chore}
    (h : Ends (fun _ => left) left (chore.work e)) : left (chore.answer e).2 := by
  unfold Chore.answer
  cases done : chore.work e <;> rw [done] at h <;> exact h

theorem answerFurther (guarded : e.pool.Guarded) (chore : Chore) :
    Further e (chore.answer e).2 := answerLeaves (choreFurther guarded chore)

theorem serveFurther (guarded : e.pool.Guarded) (chores : List Chore) :
    Further e (serve chores e).2 := by
  induction chores generalizing e with
  | nil => exact .refl guarded
  | cons chore rest ih =>
    have first := answerFurther guarded chore
    exact first.trans (ih first.1)

/- Two engines. -/

structure Twins (scope : Scope) (e f : Engine) : Prop where
  pools : Pool.Twins scope e.pool f.pool
  ledger : f.ledger = e.ledger

abbrev Agree (scope : Scope) (r r' : EStateM.Result Error Engine α) : Prop :=
  Concur (Twins scope) (fun a e b f => Twins scope e f ∧ a = b) r r'

theorem onPoolAgree (twins : Twins scope e f) {work : Instant Pool α}
    (h : Concur (Pool.Twins scope) (fun a p b q => Pool.Twins scope p q ∧ a = b) (work e.pool)
      (work f.pool)) : Agree scope (onPool work e) (onPool work f) :=
  h.inPart (fun _ _ pools => ⟨pools, twins.ledger⟩)
    fun _ _ _ _ both => ⟨⟨both.1, twins.ledger⟩, both.2⟩

theorem Agree.answer {work : Instant Engine α} (h : Agree scope (work e) (work f))
    (answer : α → β) : Agree scope ((work >>= fun a => pure (answer a)) e)
      ((work >>= fun a => pure (answer a)) f) :=
  h.andThen fun _ _ _ _ _ both => ⟨both.1, congrArg answer both.2⟩

theorem finishAgree (twins : Twins scope e f) {work : Instant Pool Unit} (status : Status)
    (h : Concur (Pool.Twins scope) (fun _ p _ q => Pool.Twins scope p q) (work e.pool)
      (work f.pool)) : Agree scope (finish txn work status e) (finish txn work status f) := by
  change Concur _ _ ((demand Engine (e.ledger.checkRunning txn) >>= fun _ => onPool work >>=
      fun _ => modify fun e => {e with ledger := e.ledger.mark txn status}) e)
    ((demand Engine (f.ledger.checkRunning txn) >>= fun _ => onPool work >>=
      fun _ => modify fun e => {e with ledger := e.ledger.mark txn status}) f)
  rw [twins.ledger]
  refine .asked twins fun _ _ => ?_
  refine (onPoolAgree twins (h.mono fun _ _ _ _ pools => ⟨pools, rfl⟩)).andThen
    fun _ m _ n _ both => ?_
  exact ⟨⟨both.1.pools, congrArg (Ledger.mark · txn status) both.1.ledger⟩, rfl⟩

theorem flushAgree (twins : Twins scope e f) : Agree scope (flush e) (flush f) :=
  onPoolAgree twins ((Pool.flushAllConcurs twins.pools).mono fun _ _ _ _ pools => ⟨pools, rfl⟩)

theorem abortAgree (twins : Twins scope e f) (txn : TxnId) :
    Agree scope (abort txn e) (abort txn f) :=
  finishAgree twins .aborted (Pool.abortConcurs twins.pools txn)

theorem shutdownAgree (twins : Twins scope e f) : Agree scope (shutdown e) (shutdown f) := by
  change Concur _ _ ((e.ledger.active.forM abort >>= fun _ => flush) e)
    ((f.ledger.active.forM abort >>= fun _ => flush) f)
  rw [twins.ledger]
  have aborted : Concur (Twins scope) (fun _ e _ f => Twins scope e f)
      (e.ledger.active.forM abort e) (e.ledger.active.forM abort f) :=
    Concur.forEach (fun txn _ _ there => (abortAgree there txn).mono fun _ _ _ _ both => both.1) _
      twins
  exact aborted.andThen fun _ _ _ _ _ there => flushAgree there

theorem roomWithin {work : Instant Pool α} {answer : α → β}
    (room : Ends (fun _ e' => e'.pool.Room) (fun e' => e'.pool.Room)
      ((onPool work >>= fun a => pure (answer a)) e)) :
    Ends (fun _ => Room) Room (work e.pool) := by
  cases done : work e.pool with
  | ok a p =>
    have whole : onPool work e = .ok a {e with pool := p} := congrArg (poolPart.outcome e) done
    rw [okThen whole] at room
    exact room
  | error cause p =>
    have whole : onPool work e = .error cause {e with pool := p} :=
      congrArg (poolPart.outcome e) done
    rw [errorThen whole] at room
    exact room

theorem scanAgree (twins : Twins scope e f) (who : Option TxnId) {id : TableId}
    (held : scope.Holds id) :
    Agree scope ((table id >>= fun file => poolPart.instant (file.scan who).settled) e)
      ((table id >>= fun file => poolPart.instant (file.scan who).settled) f) := by
  have looked : Concur (Twins scope) (fun file e' other f' => Twins scope e' f' ∧ file = other ∧
      e'.pool.Knows file ∧ file.table = id) (table id e) (table id f) := by
    refine ((Pool.tableConcurs twins.pools id).mono fun file p other q looked => ?_ :
      Concur (Pool.Twins scope) (fun file p other q => Pool.Twins scope p q ∧ file = other ∧
        p.Knows file ∧ file.table = id) _ _).inPart (fun _ _ pools => ⟨pools, twins.ledger⟩)
      fun _ _ _ _ both => ⟨⟨both.1, twins.ledger⟩, both.2⟩
    obtain ⟨rfl, rfl, rfl, found, rfl⟩ := looked
    exact ⟨twins.pools, rfl, found, rfl⟩
  refine looked.andThen fun file m _ n _ both => ?_
  obtain ⟨there, rfl, known, name⟩ := both
  exact onPoolAgree there
    (Pool.walkConcurs there.pools (name ▸ held) known who UInt32.size 0)

theorem requestAgree (twins : Twins scope e f) (r : Request)
    (held : ∀ table ∈ r.table?, scope.Holds table)
    (room : Ends (fun _ e' => e'.pool.Room) (fun e' => e'.pool.Room) (r.work.settled e)) :
    Agree scope (r.work.settled e) (r.work.settled f) := by
  cases r with
  | begin =>
    exact ⟨⟨twins.pools, congrArg (·.begin.2) twins.ledger⟩,
      congrArg (Answer.began ·.begin.1) twins.ledger.symm⟩
  | insert txn table values =>
    simp only [Request.work, Activity.settledBind, Activity.settledPure, insert,
      Activity.settledWithin] at room ⊢
    exact Agree.answer (onPoolAgree twins (Pool.insertConcurs twins.pools (held table rfl) _
      (roomWithin room))) _
  | delete txn rid =>
    simp only [Request.work, Activity.settledBind, Activity.settledPure, delete,
      Activity.settledWithin]
    exact Agree.answer (onPoolAgree twins ((Pool.deleteConcurs twins.pools
      (held rid.page.table rfl)).mono fun _ _ _ _ pools => ⟨pools, rfl⟩)) _
  | scan who table =>
    simp only [Request.work, Activity.settledBind, Activity.settledPure, scan, Activity.settledLift,
      Activity.settledWithin]
    exact Agree.answer (scanAgree twins who (held table rfl)) _
  | commit txn =>
    simp only [Request.work, Activity.settledBind, Activity.settledPure, Activity.settledLift]
    exact (finishAgree twins .committed (Pool.commitConcurs twins.pools txn)).answer _
  | abort txn =>
    simp only [Request.work, Activity.settledBind, Activity.settledPure, Activity.settledLift]
    exact (abortAgree twins txn).answer _

theorem choreAgree (twins : Twins scope e f) (chore : Chore)
    (held : ∀ table ∈ chore.table?, scope.Holds table) (room : (chore.answer e).2.pool.Room) :
    Agree scope (chore.work e) (chore.work f) := by
  have answered {work : Instant Engine Unit} (h : Agree scope (work e) (work f)) :
      Agree scope ((work >>= fun _ => (pure .done : Instant Engine Answer)) e)
        ((work >>= fun _ => (pure .done : Instant Engine Answer)) f) :=
    h.answer fun _ => Answer.done
  cases chore with
  | request r =>
    refine requestAgree twins r held ?_
    unfold Chore.answer Chore.work at room
    cases done : r.work.settled e <;> simp only [done] at room <;> exact room
  | flush => exact answered (flushAgree twins)
  | shutdown => exact answered (shutdownAgree twins)

/- Whatever has been answered, it was not that there is no place for a page. -/
def Placed : Except Error α → Prop
  | .ok _ => True
  | .error cause => cause.isExhausted = false

instance : (answer : Except Error α) → Decidable (Placed answer)
  | .ok _ => inferInstanceAs (Decidable True)
  | .error cause => inferInstanceAs (Decidable (cause.isExhausted = false))

theorem answerAgree (twins : Twins scope e f) (chore : Chore)
    (held : ∀ table ∈ chore.table?, scope.Holds table) (room : (chore.answer e).2.pool.Room)
    (placed : Placed (chore.answer e).1) (placed' : Placed (chore.answer f).1) :
    (chore.answer e).1 = (chore.answer f).1 ∧
      Twins scope (chore.answer e).2 (chore.answer f).2 := by
  have agree := choreAgree twins chore held room
  unfold Chore.answer at placed placed' ⊢
  cases mine : chore.work e with
  | ok a m =>
    cases theirs : chore.work f with
    | ok b n =>
      rw [mine, theirs] at agree
      exact ⟨congrArg Except.ok agree.2, agree.1⟩
    | error cause n =>
      rw [mine, theirs] at agree
      rw [theirs] at placed'
      exact absurd agree (Bool.eq_false_iff.mp placed')
  | error cause m =>
    rw [mine] at placed
    cases theirs : chore.work f with
    | ok b n =>
      rw [mine, theirs] at agree
      exact absurd agree (Bool.eq_false_iff.mp placed)
    | error other n =>
      rw [mine, theirs] at agree
      rw [theirs] at placed'
      obtain ⟨rfl, there⟩ := (agree.resolve_left (Bool.eq_false_iff.mp placed)).resolve_left
        (Bool.eq_false_iff.mp placed')
      exact ⟨rfl, there⟩

theorem serveAgree (twins : Twins .whole e f) (chores : List Chore)
    (placed : ∀ answer ∈ (serve chores e).1, Placed answer)
    (placed' : ∀ answer ∈ (serve chores f).1, Placed answer)
    (room : (serve chores e).2.pool.Room) :
    (serve chores e).1 = (serve chores f).1 ∧
      Twins .whole (serve chores e).2 (serve chores f).2 := by
  induction chores generalizing e f with
  | nil => exact ⟨rfl, twins⟩
  | cons chore rest ih =>
    have first := answerFurther twins.pools.left.toGuarded chore
    obtain ⟨same, there⟩ := answerAgree twins chore (fun _ _ => trivial)
      (room.before (serveFurther first.1 rest).2)
      (placed _ List.mem_cons_self) (placed' _ List.mem_cons_self)
    obtain ⟨others, last⟩ := ih there
      (fun answer told => placed answer (List.mem_cons_of_mem _ told))
      (fun answer told => placed' answer (List.mem_cons_of_mem _ told)) room
    exact ⟨congrArg₂ List.cons same others, last⟩

/- The same tables with the same pages in the volumes, the same locks and transactions. -/
structure Matches (e f : Engine) : Prop where
  tables : f.pool.tables = e.pool.tables
  pages : ∀ table file, e.pool.tables.get? table = some file →
    f.pool.storage.pages file.volume = e.pool.storage.pages file.volume ∧
      ∀ n, f.pool.storage.page? file.volume n = e.pool.storage.page? file.volume n
  locks : f.pool.locks = e.pool.locks
  ledger : f.ledger = e.ledger

/- All tables are open and nothing has been asked for yet; no call of a volume goes wrong. -/
structure Ready (e : Engine) : Prop where
  unused : e.pool.Unused
  smooth : e.pool.Smooth

theorem Ready.twins (ready : e.Ready) (ready' : f.Ready) (same : Matches e f)
    (room : e.pool.Room) : Twins scope e f := by
  have images (page : PageId) : f.pool.image? page = e.pool.image? page := by
    unfold Pool.image?
    rw [same.tables]
    cases found : e.pool.tables.get? page.table with
    | none => rfl
    | some file => exact (same.pages _ _ found).2 _
  have absent {e : Engine} (ready : e.Ready) (page : PageId) :
      e.pool.resident.get? page = none := by
    rw [ready.unused.resident]
    rfl
  have sized : Pool.Sized e.pool f.pool :=
    ⟨same.tables, fun table file found => (same.pages table file found).1⟩
  have alike : Pool.Alike scope e.pool f.pool := by
    refine .ofSame sized same.locks images (fun page => ?_) fun page => ?_
    · rw [Pool.viewAbsent (absent ready' page), Pool.viewAbsent (absent ready page), images]
    · simp only [Pool.marked, absent ready', absent ready]
  exact ⟨⟨⟨ready.unused.guarded, ready.smooth, room⟩,
    ⟨ready'.unused.guarded, ready'.smooth, sized.room room⟩, alike⟩, same.ledger⟩

theorem Twins.volumes (twins : Twins scope e f) {table : TableId} (held : scope.Holds table)
    {file : HeapFile} (found : e.pool.tables.get? table = some file) :
    f.pool.storage.pages file.volume = e.pool.storage.pages file.volume ∧
      ∀ n, f.pool.storage.page? file.volume n = e.pool.storage.page? file.volume n := by
  have count := twins.pools.alike.pages table file held found
  have known := twins.pools.known found
  refine ⟨count, fun n => ?_⟩
  by_cases inside : n < e.pool.storage.pages file.volume
  · have few := twins.pools.left.room table file found
    have number : (UInt32.ofNat n).toNat = n := UInt32.toNat_ofNat_of_lt' (Nat.lt_trans inside few)
    have image := twins.pools.alike.images ⟨table, .ofNat n⟩ held
    simp only [Pool.image?, found, known, Option.bind_some, number] at image
    exact image
  · -- there are no pages beyond the end, so neither are there any without a number
    have beyond {p : Pool} (able : p.Able) (found : p.tables.get? table = some file)
        (outside : ¬ n < p.storage.pages file.volume) : p.storage.page? file.volume n = none := by
      have positive := able.sized table file found ▸ file.layout.sizePositive
      exact Option.eq_none_iff_forall_ne_some.mpr fun _ there =>
        outside (Storage.pageBound positive there)
    rw [beyond twins.pools.left found inside, beyond twins.pools.right known (count ▸ inside)]

theorem Twins.matches (twins : Twins .whole e f) : Matches e f where
  tables := twins.pools.alike.tables
  pages _ _ found := twins.volumes trivial found
  locks := twins.pools.alike.locks
  ledger := twins.ledger

/-- The size of a cache, the pages that leave it and the patience with locks make no difference:
whatever is asked of two engines that hold the same, one thing after the other, they answer the
same and end with the same pages in their volumes, the same locks and the same transactions, as
long as there are places for all pages in both caches and the pages of every table can be counted
in words. -/
theorem cachesUnseen (ready : e.Ready) (ready' : f.Ready) (same : Matches e f)
    (chores : List Chore) (placed : ∀ answer ∈ (serve chores e).1, Placed answer)
    (placed' : ∀ answer ∈ (serve chores f).1, Placed answer)
    (room : (serve chores e).2.pool.Room) :
    (serve chores e).1 = (serve chores f).1 ∧ Matches (serve chores e).2 (serve chores f).2 := by
  have grew := (serveFurther ready.unused.guarded chores).2
  obtain ⟨answers, last⟩ :=
    serveAgree (ready.twins ready' same (room.before grew)) chores placed placed' room
  exact ⟨answers, last.matches⟩

/- Caches of one place and of two: the page that the first transaction has filled stays in one
of them while the second one fills another. -/

def sampleEngine (poolSize : Nat) (draws : List Nat) : Engine :=
  ⟨{pageSize := 8, poolSize}, {Pool.ofConfig {poolSize} Pool.sampleStorage with
    draws, tables := KeyMap.empty.insert 1 Pool.sampleFile}, .empty, 2⟩

theorem sampleReady (poolSize : Nat) (draws : List Nat) : (sampleEngine poolSize draws).Ready :=
  ⟨Pool.unusedAlone {poolSize} Pool.sampleStorage draws Pool.sampleFile rfl,
    Shell.sampleSturdy.smooth.calls, Shell.sampleSturdy.smooth.whole⟩

def sampleChores : List Chore :=
  [.request .begin, .request (.insert 1 1 [7]), .request (.commit 1), .request .begin,
    .request (.insert 2 1 [9]), .request (.commit 2), .request .begin,
    .request (.delete 3 ⟨⟨1, 0⟩, 0⟩), .shutdown, .request (.commit 3), .request (.scan none 1)]

theorem sampleServed : (sampleEngine 1 [3]).Ready ∧ (sampleEngine 2 []).Ready ∧
    Matches (sampleEngine 1 [3]) (sampleEngine 2 []) ∧
    (serve sampleChores (sampleEngine 1 [3])).2.pool.resident.keys = [⟨1, 1⟩] ∧
    (serve sampleChores (sampleEngine 2 [])).2.pool.resident.keys = [⟨1, 1⟩, ⟨1, 0⟩] ∧
    (serve sampleChores (sampleEngine 1 [3])).1 = (serve sampleChores (sampleEngine 2 [])).1 ∧
    Matches (serve sampleChores (sampleEngine 1 [3])).2
      (serve sampleChores (sampleEngine 2 [])).2 := by
  have same : Matches (sampleEngine 1 [3]) (sampleEngine 2 []) :=
    ⟨rfl, fun _ _ _ => ⟨rfl, fun _ => rfl⟩, rfl, rfl⟩
  have room : (serve sampleChores (sampleEngine 1 [3])).2.pool.Room :=
    Shell.sampleRoom (by decide +kernel) (by decide +kernel)
  refine ⟨sampleReady 1 [3], sampleReady 2 [], same, by decide +kernel, by decide +kernel, ?_⟩
  exact cachesUnseen (sampleReady 1 [3]) (sampleReady 2 []) same sampleChores
    (by decide +kernel) (by decide +kernel) room

/- Numbers are out for the pages of the first table, so each of its blank pages is put over its
page 0, whatever a cache has kept of that page. -/

def crowdedPages : HeapFile := {Pool.sampleFile with
  layout := {Pool.sampleFile.layout with pageSize := 9, holdsOne := by decide}}

def otherPages : HeapFile := {crowdedPages with table := 2, volume := 1}

def crowdedVolumes : Storage :=
  {Storage.crowded 9 with
    volumes := (Storage.crowded 9).volumes ++ [⟨9, .memory [List.replicate 9 0], [], [], []⟩]}

def crowdedTables (poolSize : Nat) : Engine :=
  ⟨{pageSize := 9, poolSize}, {Pool.ofConfig {poolSize} crowdedVolumes with
    draws := [], tables := (KeyMap.empty.insert 1 crowdedPages).insert 2 otherPages}, .empty, 3⟩

theorem crowdedReady (poolSize : Nat) : (crowdedTables poolSize).Ready := by
  refine ⟨Pool.unusedPair {poolSize} crowdedVolumes [] crowdedPages otherPages rfl rfl
    ⟨by decide, nofun⟩ (by decide), fun point table file found => ?_, fun room => ?_⟩
  · obtain rfl | rest := KeyMap.insertSource found
    · exact Storage.sparesAll rfl rfl
    · obtain rfl | none := KeyMap.insertSource rest
      · exact Storage.sparesAll rfl rfl
      · cases none
  · have many : ¬ crowdedVolumes.pages 0 < UInt32.size := by decide
    exact absurd (room 1 crowdedPages rfl) many

/- Another table is looked at between two records, so a cache of one place loses page 0. -/
def crowdedChores : List Chore :=
  [.request .begin, .request (.insert 1 1 [7]), .request (.commit 1), .request .begin,
    .request (.scan (some 2) 2), .request (.commit 2), .request .begin, .request (.insert 3 1 [9])]

theorem crowdedCachesSeen : (crowdedTables 1).Ready ∧ (crowdedTables 2).Ready ∧
    Matches (crowdedTables 1) (crowdedTables 2) ∧
    (∀ answer ∈ (serve crowdedChores (crowdedTables 1)).1, Placed answer) ∧
    (∀ answer ∈ (serve crowdedChores (crowdedTables 2)).1, Placed answer) ∧
    (serve crowdedChores (crowdedTables 1)).1.getLast? = some (.ok (.placed ⟨⟨1, 0⟩, 0⟩)) ∧
    (serve crowdedChores (crowdedTables 2)).1.getLast? = some (.ok (.placed ⟨⟨1, 0⟩, 1⟩)) := by
  have same : Matches (crowdedTables 1) (crowdedTables 2) :=
    ⟨rfl, fun _ _ _ => ⟨rfl, fun _ => rfl⟩, rfl, rfl⟩
  exact ⟨crowdedReady 1, crowdedReady 2, same, by decide +kernel, by decide +kernel,
    by decide +kernel, by decide +kernel⟩

end Engine
end PagedHeap
