import PagedHeap.Proofs.CalmScans
import PagedHeap.Proofs.Openings

/-! What a transaction is given when it lists a table once more: what it was given before, and
then records of pages that were added since. -/
namespace PagedHeap

open Pool (Moves Respects Guarded Grew Whole)

namespace Pool

variable {p q r : Pool} {txn : TxnId}

/- The pages that a transaction has locked stay locked, and look as they did. -/
structure Retains (txn : TxnId) (p q : Pool) : Prop where
  grew : Grew p q
  locked : ∀ page, (p.locks.access? txn page).isSome = true →
    (q.locks.access? txn page).isSome = true
  views : ∀ page image, (p.locks.access? txn page).isSome = true → q.Numbered page.table →
    p.view? page = some image → q.view? page = some image

theorem Retains.refl (txn : TxnId) (p : Pool) : Retains txn p p :=
  ⟨.refl p, fun _ same => same, fun _ _ _ _ seen => seen⟩

theorem Retains.trans (first : Retains txn p q) (second : Retains txn q r) : Retains txn p r where
  grew := first.grew.trans second.grew
  locked page held := second.locked page (first.locked page held)
  views page image held numbered seen := second.views page image (first.locked page held) numbered
    (first.views page image held (numbered.before second.grew) seen)

theorem Respects.retains (others : Respects (some txn) p q) : Retains txn p q where
  grew := others.grew
  locked page held := (others.access rfl page).symm ▸ held
  views := others.views txn rfl

theorem Guarded.retains (guarded : p.Guarded) (moves : Moves (Act.reads (some txn)) p q) :
    Retains txn p q where
  grew := moves.grew
  locked _ held := moves.keepsLocks held
  views page _ _ numbered seen :=
    guarded.viewsKept (fun _ reads => Act.mildLeaves page (Act.readsMild reads)) moves
      (guarded.apart.reads moves) numbered seen

end Pool

namespace Engine

open Pool (Retains)

/- The transaction does nothing but list tables; others do what they like. -/
def Reading (txn : TxnId) (o : Operation) : Prop :=
  o.txn? = some txn → ∃ table, o = .request (.scan (some txn) table)

def listing (txn : TxnId) (table : TableId) : Operation := .request (.scan (some txn) table)

def listed (records : List Record) : Response := .answered (.listed records)

/- The second list is the first one, and then records of pages that the pool did not have. -/
def Resumed (p : Pool) (file : HeapFile) (first second : List Record) : Prop :=
  ∃ extra, second = first ++ extra ∧ ∀ record ∈ extra, ∃ rid, record.rid = some rid ∧
    rid.page.table = file.table ∧ p.storage.pages file.volume ≤ rid.page.number.toNat

structure Repeats (txn : TxnId) (file : HeapFile) (first : List Record) (p : Pool)
    (h : History Operation Response) (e : Engine) : Prop where
  retains : Retains txn p e.pool
  lists : e.pool.Numbered file.table → ∀ second,
    (listing txn file.table, .ok (listed second)) ∈ h → Resumed p file first second

variable {txn : TxnId} {file : HeapFile} {first : List Record} {p : Pool} {e e' : Engine}
  {h : History Operation Response} {o : Operation} {a : Response}

theorem Reading.apart (own : o.txn? ≠ some txn) : Reading txn o := fun same => absurd same own

theorem Reading.stretch (reading : Reading txn o) (guarded : e.pool.Guarded)
    (moves : Moves o.kind e.pool e'.pool) : Retains txn e.pool e'.pool := by
  by_cases own : o.txn? = some txn
  · obtain ⟨table, rfl⟩ := reading own
    exact guarded.retains moves
  · have apart : ∀ maker, o.txn? = some maker → some txn ≠ some maker :=
      fun _ theirs same => own (theirs.trans same.symm)
    exact (Respects.ofMild guarded (moves.mono fun _ => Operation.kindMild) apart).retains

theorem Reading.done (reading : Reading txn o) (guarded : e.pool.Guarded)
    (done : o.Done a e.pool e'.pool) : Retains txn e.pool e'.pool := by
  by_cases own : o.txn? = some txn
  · obtain ⟨table, rfl⟩ := reading own
    cases done with
    | scan moves => exact guarded.retains moves
    | other other => exact absurd rfl (other _ _)
  · exact (done.respects guarded fun _ theirs same => own (theirs.trans same.symm)).retains

theorem Repeats.later (repeats : Repeats txn file first p h e)
    (retains : Retains txn e.pool e'.pool) : Repeats txn file first p h e' :=
  ⟨repeats.retains.trans retains,
    fun numbered => repeats.lists (numbered.before retains.grew)⟩

theorem Repeats.answered (repeats : Repeats txn file first p h e)
    (before : p.Numbered file.table → Whole file txn first p)
    (known : p.tables.get? file.table = some file) (done : o.Done a e.pool e'.pool)
    (retains : Retains txn e.pool e'.pool) : Repeats txn file first p ((o, .ok a) :: h) e' := by
  have since := repeats.retains.trans retains
  refine ⟨since, fun numbered second there => ?_⟩
  rcases List.mem_cons.mp there with same | there
  · cases same
    cases done with
    | scan moves whole =>
      obtain ⟨home, found, whole⟩ := whole
      cases (since.grew.tables _ _ known).symm.trans found
      exact (before (numbered.before since.grew)).again (whole txn rfl numbered) since.grew
        (numbered file found) fun page image home held seen =>
          since.views page image held (home ▸ numbered) seen
    | other other => exact absurd rfl (other _ _)
  · exact repeats.lists (numbered.before retains.grew) second there

theorem keptReading (before : p.Numbered file.table → Whole file txn first p)
    (known : p.tables.get? file.table = some file) :
    Kept (Reading txn) (Repeats txn file first p) where
  stretch _ reading guarded moves repeats := repeats.later (reading.stretch guarded moves)
  fails _ _ repeats := ⟨repeats.retains, fun numbered second there =>
    repeats.lists numbered second ((List.mem_cons.mp there).resolve_left nofun)⟩
  done _ _ reading guarded done repeats :=
    repeats.answered before known done (reading.done guarded done)

variable {t u v : Traffic Engine Operation Response} {recent : History Operation Response}
  {table : TableId} {second : List Record}

theorem readyReading {w : Waiting Engine Operation Response}
    (ready : Service.Ready (Stretches Anything) Bystanders (Answers Anything) e w)
    (own : w.request.txn? ≠ some txn) :
    Service.Ready (Stretches (Reading txn)) Bystanders (Answers (Reading txn)) e w :=
  fun e' others => (ready e' others).mono (fun _ _ stretch => ⟨.apart own, stretch.2⟩)
    (fun _ _ same => same) (fun _ _ _ done => ⟨.apart own, done.2⟩)

/-- A transaction that lists a table, and lists it again after whatever others have done, is
given what it was given before and then only records of pages that were added since, as long as
the pages of the table can be counted in words. -/
theorem readsRepeat (reached : Reached t)
    (once : (steady Anything).Step ([], t) ([(listing txn table, .ok (listed first))], u))
    (later : Relation.ReflTransGen (steady (Reading txn)).Step ([], u) (recent, v))
    (again : (listing txn table, .ok (listed second)) ∈ recent)
    (numbered : v.state.pool.Numbered table) :
    ∃ file, u.state.pool.tables.get? table = some file ∧
      ∃ extra, second = first ++ extra ∧
        ∀ record ∈ extra, ∃ rid, record.rid = some rid ∧ rid.page.table = table ∧
          u.state.pool.storage.pages file.volume ≤ rid.page.number.toNat := by
  have law := lawOfGuards keptNothing
  have before := reached.orderly []
  have there := law.step before once
  obtain ⟨⟨_, done⟩, free⟩ := law.answered before once
  cases done with
  | other other => exact absurd rfl (other _ _)
  | scan moves whole =>
    obtain ⟨file, found, whole⟩ := whole
    obtain rfl := there.holds.1.named table file found
    -- whoever still waits waits for another transaction, so only the history starts afresh
    have start : (steady (Reading txn)).Orderly
        (Guarding (Repeats txn file first u.state.pool)) (Stretches (Reading txn)) Bystanders
          (Answers (Reading txn)) [] u :=
      ⟨⟨there.holds.1, .refl txn _, nofun⟩,
        fun w waits => readyReading (there.ready w waits) (free w waits txn rfl), there.apart⟩
    have ends := (lawOfGuards (keptReading (whole txn rfl) found)).steps start later
    exact ⟨file, found, ends.holds.2.lists numbered second again⟩

/- One transaction lists a table of one page, another one adds a page, and both are listed. -/

def sampleRow (number : UInt32) (value : UInt8) : Record :=
  ⟨some ⟨⟨1, number⟩, 0⟩, [value, 0, 0, 0]⟩

def sampleBegun : History Operation Response × Traffic Engine Operation Response :=
  (steady Anything).next (.request .begin) ([], ⟨sampleTable [1, 7, 0, 0, 0, 0, 0, 0] [], []⟩)

def sampleListed : History Operation Response × Traffic Engine Operation Response :=
  (steady Anything).next (listing 1 1) ([], sampleBegun.2)

def sampleGrown : History Operation Response × Traffic Engine Operation Response :=
  (steady (Reading 1)).next (.request (.insert 2 1 [9]))
    ((steady (Reading 1)).next (.request .begin) ([], sampleListed.2))

def sampleRelisted : History Operation Response × Traffic Engine Operation Response :=
  (steady (Reading 1)).next (listing 1 1)
    ((steady (Reading 1)).next (.request (.commit 2)) sampleGrown)

theorem sampleRepeats :
    (steady Anything).Step ([], sampleBegun.2) sampleListed ∧
    Relation.ReflTransGen (steady (Reading 1)).Step ([], sampleListed.2) sampleRelisted ∧
    ∃ file, sampleListed.2.state.pool.tables.get? 1 = some file ∧
      ∃ extra, [sampleRow 0 7, sampleRow 1 9] = [sampleRow 0 7] ++ extra ∧
        ∀ record ∈ extra, ∃ rid, record.rid = some rid ∧ rid.page.table = 1 ∧
          sampleListed.2.state.pool.storage.pages file.volume ≤ rid.page.number.toNat := by
  have reached : Reached sampleBegun.2 :=
    Reached.asked ([], _) (.unused (sampleUnused _ _)) .begin rfl
  have once : (steady Anything).Step ([], sampleBegun.2) sampleListed :=
    .alone (steady Anything) (listing 1 1) ⟨trivial, nofun⟩ rfl
  have asked {before} (r : Request) (another : r.txn? ≠ some 1) (idle : before.2.waiting = []) :
      (steady (Reading 1)).Step before ((steady (Reading 1)).next (.request r) before) :=
    .alone _ _ ⟨.apart another, nofun⟩ idle
  have grown : Relation.ReflTransGen (steady (Reading 1)).Step ([], sampleListed.2) sampleGrown :=
    .tail (.single (asked .begin nofun rfl)) (asked (.insert 2 1 [9]) (by decide) rfl)
  have later :
      Relation.ReflTransGen (steady (Reading 1)).Step ([], sampleListed.2) sampleRelisted :=
    .tail (.tail grown (asked (.commit 2) (by decide) rfl))
      (.alone _ (listing 1 1) ⟨fun _ => ⟨1, rfl⟩, nofun⟩ rfl)
  have again : (listing 1 1, .ok (listed [sampleRow 0 7, sampleRow 1 9])) ∈ sampleRelisted.1 :=
    List.mem_cons_self
  have room : sampleRelisted.2.state.pool.Room := sampleRoom rfl rfl
  exact ⟨once, later, readsRepeat reached once later again (room 1)⟩

/- A table of full pages, one page short of as many as there are numbers. When it has grown, they
are counted as none. -/

def brimmingFile : HeapFile := {Pool.sampleFile with
  layout := {Pool.sampleFile.layout with pageSize := 5, holdsOne := by decide}}

def brimmingVolume : Storage :=
  ⟨(Directory.empty "").put "t" [⟨4294967295 * 5, 1⟩], [⟨5, .file "t", [], [], []⟩]⟩

def brimmingTable : Engine :=
  ⟨{pageSize := 5, poolSize := 2}, {Pool.ofConfig {poolSize := 2} brimmingVolume with
    draws := [], tables := KeyMap.empty.insert 1 brimmingFile}, .empty, 2⟩

theorem brimmingUnused : brimmingTable.pool.Unused :=
  Pool.unusedAlone {poolSize := 2} brimmingVolume [] brimmingFile rfl

theorem brimmingKnown {table : TableId} {file : HeapFile}
    (found : brimmingTable.pool.tables.get? table = some file) : file = brimmingFile := by
  obtain rfl | none := KeyMap.insertSource found
  · rfl
  · cases none

theorem brimmingPages : brimmingVolume.pages 0 = 4294967295 := rfl

theorem brimmingImage {n : Nat} {image : Bytes} (held : brimmingVolume.page? 0 n = some image) :
    image = [1, 1, 1, 1, 1] := by
  have bytes : brimmingVolume.directory.bytes "t" = List.replicate (4294967295 * 5) 1 :=
    List.append_nil _
  obtain ⟨whole, rfl⟩ : (Bytes.slice (brimmingVolume.directory.bytes "t") (n * 5) 5).length = 5 ∧
      Bytes.slice (brimmingVolume.directory.bytes "t") (n * 5) 5 = image :=
    (Option.ite_none_right_eq_some.mp held).imp_right Option.some.inj
  rw [bytes, Bytes.slice, List.drop_replicate, List.take_replicate] at whole ⊢
  rw [List.length_replicate] at whole
  rw [whole]
  rfl

theorem brimmingCalm : brimmingTable.pool.Calm where
  toUnowned := Pool.unownedAlone [] brimmingFile rfl (by decide)
    (fun _ => Storage.sparesAll rfl rfl) (fun _ _ held => by rw [brimmingImage held]; rfl)
    (show brimmingVolume.pages 0 < UInt32.size by rw [brimmingPages]; decide)
  slots table file found := brimmingKnown found ▸ by decide

theorem brimmingFull (page : PageId) : brimmingTable.pool.Full page := by
  intro slot bytes free
  obtain ⟨file, found, image, held, there⟩ : ∃ file, brimmingTable.pool.tables.get? page.table =
      some file ∧ ∃ image, brimmingTable.pool.view? page = some image ∧
        file.layout.slot? image slot = some (false, bytes) := by
    simpa only [Pool.slot?, Option.bind_eq_some_iff] using free
  rw [Pool.viewAbsent rfl] at held
  simp only [Pool.image?, found, Option.bind_some] at held
  cases brimmingKnown found
  cases brimmingImage held
  unfold Layout.slot? at there
  split at there
  · rename_i inside
    obtain rfl : slot = 0 := Nat.lt_one_iff.mp inside
    cases there
  · cases there

def brimmingBegun : History Operation Response × Traffic Engine Operation Response :=
  (steady Anything).next (.request .begin) ([], ⟨brimmingTable, []⟩)

theorem listingDone {e : Engine} {file : HeapFile} {q : Pool} {records : List Record}
    (known : e.pool.Knows file) (scanned : file.scan (some txn) e.pool = .ended (.ok records q)) :
    (listing txn file.table).work e = .ended (.ok (listed records) {e with pool := q}) := by
  have done : scan (some txn) file.table e = .ended (.ok records {e with pool := q}) := by
    change (Progress.ended (table file.table e)).andThen _ = _
    rw [tableKnown known]
    change (file.scan (some txn) e.pool).within poolPart e = _
    rw [scanned]
    rfl
  change ((scan (some txn) file.table e).andThen _).andThen _ = _
  rw [done]
  rfl

theorem insertGrows (txn : TxnId) (e : Engine) (file : HeapFile) (values : List Int32)
    (calm : e.pool.Calm) (known : e.pool.Knows file)
    (full : ∀ number, number.toNat < e.pool.storage.pages file.volume →
      e.pool.Full ⟨file.table, number⟩)
    (takes : file.layout.Takes (Record.ofValues values).data)
    (h : History Operation Response) (permits : Operation → Prop)
    (permitted : permits (.request (.insert txn file.table values))) :
    ∃ later e', Relation.ReflTransGen (steady permits).Step (h, ⟨e, []⟩) (later, ⟨e', []⟩) ∧
      Pool.Outgrows file e.pool e'.pool := by
  have settled : Relation.ReflTransGen (steady permits).Step (h, ⟨e, []⟩)
      (Service.record _ h (.ended ((Operation.request (.insert txn file.table values)).work.settled
        e)), Service.traffic _ [] (.ended _)) :=
    (steady permits).settles ⟨permitted, nofun⟩ h
  let grown (e' : Engine) : Prop := Pool.Outgrows file e.pool e'.pool
  have inserted : Ends (fun _ => grown) grown ((insert txn file.table values).settled e) := by
    rw [insert, Activity.settledWithin]
    exact Ends.inPart (calm.grows known full takes)
  have ends : Ends (fun _ => grown) grown
      ((Operation.request (.insert txn file.table values)).work.settled e) := by
    simp only [Operation.work, Request.work, Activity.settledBind, Activity.settledPure]
    refine Ends.andThen (?_ : Ends (fun _ => grown) grown _) (fun _ _ same => same)
      fun _ same => same
    exact inserted.andThen (fun _ _ same => same) fun _ same => same
  cases done : (Operation.request (.insert txn file.table values)).work.settled e with
  | ok a e' =>
    rw [done] at ends
    exact ⟨_, e', done ▸ settled, ends⟩
  | error cause e' =>
    rw [done] at ends
    exact ⟨_, e', done ▸ settled, ends⟩

theorem listingStep (e : Engine) (file : HeapFile) {q : Pool} {records : List Record}
    (permits : Operation → Prop) (permitted : permits (listing txn file.table))
    (known : e.pool.Knows file) (scanned : file.scan (some txn) e.pool = .ended (.ok records q))
    (h : History Operation Response) :
    (steady permits).Step (h, ⟨e, []⟩)
      ((listing txn file.table, .ok (listed records)) :: h, ⟨{e with pool := q}, []⟩) := by
  have step : (steady permits).Step (h, ⟨e, []⟩) (Service.record _ h
      ((listing txn file.table).work e), Service.traffic _ [] ((listing txn file.table).work e)) :=
    .alone (steady permits) (listing txn file.table) ⟨permitted, nofun⟩ rfl
  rwa [listingDone known scanned] at step

/- Another transaction adds a page to a table that a list was given of, and then the list is
empty. -/
theorem outgrownListsNothing : ∃ first u recent v, Reached brimmingBegun.2 ∧
    (steady Anything).Step ([], brimmingBegun.2) ([(listing 1 1, .ok (listed first))], u) ∧
    Relation.ReflTransGen (steady (Reading 1)).Step ([], u) (recent, v) ∧
    (listing 1 1, .ok (listed [])) ∈ recent ∧ ¬ first <+: [] := by
  have reached : Reached brimmingBegun.2 :=
    Reached.asked ([], _) (.unused brimmingUnused) .begin rfl
  obtain ⟨q, scanned, calm, moves⟩ := brimmingCalm.lists (show brimmingTable.pool.Knows brimmingFile
    from rfl) 1
  have known : q.Knows brimmingFile := moves.grew.tables _ _ rfl
  have searchable := brimmingCalm.toSound.searchable brimmingCalm.apart brimmingCalm.room
  obtain ⟨_, alike⟩ := searchable.probed (moves.mono fun _ => Act.readsProbes)
  have pages : q.storage.pages 0 = 4294967295 := alike.storage.pages 0
  have once := listingStep brimmingBegun.2.state brimmingFile Anything trivial rfl scanned []
  -- the second transaction begins, and adds its record
  let listed : History Operation Response × Traffic Engine Operation Response :=
    ([], ⟨{brimmingBegun.2.state with pool := q}, []⟩)
  have begun :
      (steady (Reading 1)).Step listed ((steady (Reading 1)).next (.request .begin) listed) :=
    .alone (steady (Reading 1)) (.request .begin) ⟨.apart nofun, nofun⟩ rfl
  obtain ⟨later, e, grows, grown⟩ := insertGrows 2
    ((steady (Reading 1)).next (.request .begin) listed).2.state brimmingFile [9] calm known
    (fun number _ => (alike.full _).mpr (brimmingFull _)) (by decide)
    ((steady (Reading 1)).next (.request .begin) listed).1 (Reading 1) (.apart (by decide))
  -- with one page more, no page has a number below the count
  have none : UInt32.ofNat (e.pool.storage.pages 0) = 0 := by
    rw [show e.pool.storage.pages 0 = q.storage.pages 0 + 1 from grown.pages, pages]
    rfl
  obtain ⟨r, scanned'⟩ := Pool.scanNothing
    (grown.grew.storage.spares _ _ (calm.smooth.calls .count _ _ known)) none (some 1)
  have again := listingStep e brimmingFile (Reading 1) (fun _ => ⟨1, rfl⟩)
    (grown.grew.tables _ _ known) scanned' later
  refine ⟨_, _, _, _, reached, once, .tail (.head begun grows) again, List.mem_cons_self,
    fun before => ?_⟩
  have row : ⟨some ⟨⟨1, 0⟩, 0⟩, [1, 1, 1, 1]⟩ ∈ brimmingFile.decode brimmingVolume := by
    refine List.mem_flatMap.mpr ⟨0, List.mem_range.mpr (by decide), ?_⟩
    decide
  rw [show brimmingFile.decode brimmingVolume = [] from List.prefix_nil.mp before] at row
  exact List.not_mem_nil row

end Engine
end PagedHeap
