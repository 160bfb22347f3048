import PagedHeap.Proofs.Geometry
import PagedHeap.Proofs.Lifetimes
import PagedHeap.Proofs.PageStores
import PagedHeap.Proofs.Upkeep

/-! The numbers of tables. An engine counts the tables that it has opened and opens the next
one under the next number; a pool takes tables from anybody, under any number that it does
not know yet. A number that was taken before the count has come to it ends the counting. -/
namespace PagedHeap

namespace Storage

/- The name leads to a file, which is a whole number of pages or missing. -/
def Offers (s : Storage) (name : String) (pageSize : Nat) : Prop :=
  ∃ file, s.directory.resolve name = .ok file ∧ (s.directory.content file).size % pageSize = 0

def KeepsOffers (s t : Storage) : Prop :=
  ∀ name pageSize, s.Offers name pageSize → t.Offers name pageSize

theorem offersEnsured (s : Storage) (file : String) (volumes : List Volume) :
    KeepsOffers s ⟨s.directory.ensure file, volumes⟩ := by
  intro name pageSize offers
  obtain ⟨home, resolved, whole⟩ := offers
  refine ⟨home, Directory.resolvePut _ resolved, ?_⟩
  rw [Directory.contentEnsure]
  exact whole

theorem openFileOffers (name : String) (pageSize : Nat) (s : Storage) :
    Ends (fun v t => s.Offers name pageSize ∧ KeepsOffers s t ∧ t.pageSize v = pageSize)
      (KeepsOffers s) (openFile name pageSize s) := by
  have same : KeepsOffers s s := fun _ _ => id
  have sized : Ends (fun _ t => t = s) (KeepsOffers s) (demand Storage (checkSize pageSize) s) :=
    .demand (fun _ _ => rfl) same
  refine sized.andThen (fun _ a still => ?_) (fun _ lost => lost)
  obtain rfl := still
  have named : Ends (fun file t => t = a ∧ a.directory.resolve name = .ok file) (KeepsOffers a)
      (served Storage (a.directory.resolve name) a) := .served (fun _ found => ⟨rfl, found⟩) same
  refine named.andThen (fun file b found => ?_) (fun _ lost => lost)
  obtain ⟨rfl, resolved⟩ := found
  have measured : Ends (fun _ t => t = {b with directory := b.directory.ensure file} ∧
        b.Offers name pageSize) (KeepsOffers b)
      (demand Storage (checkWhole (b.directory.ensure file) name file pageSize)
        {b with directory := b.directory.ensure file}) := by
    refine .demand (fun _ fits => ⟨rfl, file, resolved, ?_⟩) (b.offersEnsured file b.volumes)
    simp only [checkWhole, Directory.contentEnsure] at fits
    split at fits
    · assumption
    · cases fits
  refine measured.andThen (fun _ c there => ?_) (fun _ lost => lost)
  obtain ⟨rfl, offers⟩ := there
  refine ⟨offers, b.offersEnsured file _, ?_⟩
  simp [Storage.pageSize, Storage.volume]

end Storage

namespace HeapFile

open Storage (KeepsOffers)

variable {name : String} {width pageSize : Nat} {s : Storage}

theorem onFileOffers (name : String) (table : TableId) (width pageSize : Nat) (s : Storage) :
    Ends (fun f t => s.Offers name pageSize ∧ (∃ l, Layout.ofSizes pageSize width = .ok l) ∧
        f.table = table ∧ KeepsOffers s t)
      (KeepsOffers s) (onFile name table width pageSize s) := by
  refine (Storage.openFileOffers name pageSize s).andThen (fun v t opened => ?_)
    (fun _ lost => lost)
  obtain ⟨offers, keeps, size⟩ := opened
  have laid : Ends (fun _ u => u = t ∧ ∃ l, Layout.ofSizes pageSize width = .ok l) (KeepsOffers s)
      (demand Storage (Layout.ofSizes (t.pageSize v) width) t) :=
    .demand (fun layout made => ⟨rfl, layout, size ▸ made⟩) keeps
  refine laid.andThen (fun layout u fits => ?_) (fun _ lost => lost)
  obtain ⟨rfl, fits⟩ := fits
  exact ⟨offers, fits, rfl, keeps⟩

theorem onFileSure (table : TableId) (offers : s.Offers name pageSize)
    (fits : ∃ l, Layout.ofSizes pageSize width = .ok l) :
    ∃ f t, onFile name table width pageSize s = .ok f t := by
  obtain ⟨file, resolved, whole⟩ := offers
  obtain ⟨layout, made⟩ := fits
  have positive : 0 < pageSize := (Layout.ofSizesKeeps made).1 ▸ layout.sizePositive
  let t : Storage := ⟨s.directory.ensure file, s.volumes ++ [⟨pageSize, .file file, [], [], []⟩]⟩
  have opened : Storage.openFile name pageSize s = .ok s.volumes.length t :=
    Storage.openFileSure positive resolved whole
  have sized : t.pageSize s.volumes.length = pageSize := by
    simp [t, Storage.pageSize, Storage.volume]
  refine ⟨⟨table, layout, s.volumes.length⟩, t, (okThen opened _).trans ?_⟩
  rw [onVolume, getThen, sized, made]
  rfl

end HeapFile

/- A table that became known to a pool: opened by the engine, or handed to the pool. -/
inductive Entry where
  | opened (table : TableId)
  | placed (table : TableId)

namespace Entry

def table : Entry → TableId
  | .opened table => table
  | .placed table => table

/- Of many entries the latest comes first. -/

def openings (entries : List Entry) : List TableId :=
  entries.filterMap fun
    | .opened table => some table
    | .placed _ => none

def placings (entries : List Entry) : List TableId :=
  entries.filterMap fun
    | .opened _ => none
    | .placed table => some table

theorem memTables {entries : List Entry} {id : TableId} :
    id ∈ entries.map table ↔ id ∈ openings entries ∨ id ∈ placings entries := by
  induction entries with
  | nil => simp [openings, placings]
  | cons entry rest ih =>
    cases entry with
    | opened other =>
      change id ∈ other :: rest.map table ↔ id ∈ other :: openings rest ∨ id ∈ placings rest
      simp only [List.mem_cons, ih, or_assoc]
    | placed other =>
      change id ∈ other :: rest.map table ↔ id ∈ openings rest ∨ id ∈ other :: placings rest
      simp only [List.mem_cons, ih, or_left_comm]

end Entry

namespace Engine

variable {name : String} {width : Nat} {table : TableId} {e e' : Engine}

structure Usable (name : String) (width : Nat) (e : Engine) : Prop where
  offered : e.pool.storage.Offers name e.config.pageSize
  fits : ∃ l, Layout.ofSizes e.config.pageSize width = .ok l

def onStorage (e : Engine) (storage : Storage) : Engine :=
  {e with pool := {e.pool with storage}}

theorem openTableCases (name : String) (width : Nat) (e : Engine) :
    openTable name width e =
      match HeapFile.onFile name e.nextTable width e.config.pageSize e.pool.storage with
      | .error cause s => .error (.file (e.pool.storage.directory.path name) cause) (e.onStorage s)
      | .ok file s =>
        if e.pool.tables.contains file.table then
          .error (.registration (.invalid (.tableTaken file.table))) (e.onStorage s)
        else .ok e.nextTable {e.onStorage s with
          pool := {e.pool with storage := s, tables := e.pool.tables.insert file.table file}
          nextTable := e.nextTable + 1} := by
  have opened : (onPool (Pool.onStorage
      (HeapFile.onFile name e.nextTable width e.config.pageSize)) : Instant Engine HeapFile) e =
    match HeapFile.onFile name e.nextTable width e.config.pageSize e.pool.storage with
    | .ok file s => .ok file (e.onStorage s)
    | .error cause s => .error cause (e.onStorage s) := by
    simp only [onPool, Pool.onStorage, Part.instant, poolPart, Pool.storagePart]
    cases HeapFile.onFile name e.nextTable width e.config.pageSize e.pool.storage <;> rfl
  unfold openTable
  rw [getThen]
  simp only [bind, EStateM.bind, EStateM.adaptExcept, opened]
  cases HeapFile.onFile name e.nextTable width e.config.pageSize e.pool.storage with
  | error cause s => rfl
  | ok file s =>
    simp only [onPool, Part.instant, Pool.registerCases, poolPart, onStorage]
    by_cases taken : e.pool.tables.contains file.table = true
    · simp only [taken, if_true]
      rfl
    · simp only [taken]
      rfl

structure Opening (name : String) (width : Nat) (e : Engine) : Prop where
  opens : ∀ table e', openTable name width e = .ok table e' →
    table = e.nextTable ∧ e'.nextTable = table + 1 ∧ e.pool.tables.get? table = none ∧
      ∃ file : HeapFile, file.table = table ∧ e'.pool.tables = e.pool.tables.insert table file
  fails : ∀ cause e', openTable name width e = .error cause e' →
    e'.pool.tables = e.pool.tables ∧ e'.nextTable = e.nextTable ∧
      ∀ name width, Usable name width e → Usable name width e'
  succeeds : (∃ table e', openTable name width e = .ok table e') ↔
    Usable name width e ∧ e.pool.tables.get? e.nextTable = none
  blocked : Usable name width e → e.pool.tables.get? e.nextTable ≠ none →
    ∃ e', openTable name width e = .error (.registration (.invalid (.tableTaken e.nextTable))) e'

theorem Usable.kept {s : Storage} (usable : Usable name width e)
    (keeps : e.pool.storage.KeepsOffers s) : Usable name width (e.onStorage s) :=
  ⟨keeps _ _ usable.offered, usable.fits⟩

theorem openingLaw (name : String) (width : Nat) (e : Engine) : Opening name width e := by
  have cases := openTableCases name width e
  have offers := HeapFile.onFileOffers name e.nextTable width e.config.pageSize e.pool.storage
  have sure (usable : Usable name width e) :=
    HeapFile.onFileSure e.nextTable usable.offered usable.fits
  cases made : HeapFile.onFile name e.nextTable width e.config.pageSize e.pool.storage with
  | error cause s =>
    rw [made] at cases offers
    have unusable : ¬ Usable name width e := by
      intro usable
      obtain ⟨f, t, same⟩ := sure usable
      rw [made] at same
      cases same
    refine ⟨?_, ?_, ?_, fun usable => absurd usable unusable⟩
    · intro table e' opened
      rw [cases] at opened
      cases opened
    · intro cause e' failed
      rw [cases] at failed
      cases failed
      exact ⟨rfl, rfl, fun _ _ usable => usable.kept offers⟩
    · rw [cases]
      refine ⟨?_, fun both => absurd both.1 unusable⟩
      rintro ⟨table, e', opened⟩
      cases opened
  | ok file s =>
    rw [made] at cases offers
    obtain ⟨offered, fits, same, keeps⟩ := offers
    have usable : Usable name width e := ⟨offered, fits⟩
    simp only [same] at cases
    cases taken : e.pool.tables.get? e.nextTable with
    | some other =>
      simp only [KeyMap.contains, taken, Option.isSome_some, if_true] at cases
      refine ⟨?_, ?_, ?_, fun _ _ => ⟨_, cases⟩⟩
      · intro table e' opened
        rw [cases] at opened
        cases opened
      · intro cause e' failed
        rw [cases] at failed
        cases failed
        exact ⟨rfl, rfl, fun _ _ usable => usable.kept keeps⟩
      · rw [cases]
        refine ⟨?_, fun both => absurd (taken.symm.trans both.2) (Option.some_ne_none other)⟩
        rintro ⟨table, e', opened⟩
        cases opened
    | none =>
      simp only [KeyMap.contains, taken, Option.isSome_none, Bool.false_eq_true, if_false] at cases
      refine ⟨?_, ?_, ?_, fun _ there => absurd taken there⟩
      · intro table e' opened
        rw [cases] at opened
        cases opened
        exact ⟨rfl, rfl, taken, file, same, rfl⟩
      · intro cause e' failed
        rw [cases] at failed
        cases failed
      · exact ⟨fun _ => ⟨usable, taken⟩, fun _ => ⟨_, _, cases⟩⟩

/- What becomes known to the pool, as the answers tell it. -/

open Entry (openings placings)

def Job.newcomer? : Job → Except Error (Option Response) → Option Entry
  | .operation (.openTable ..), .ok (some (.opened table)) => some (.opened table)
  | .call (.register file), .ok _ => some (.placed file.table)
  | _, _ => none

def entries (h : History Job (Option Response)) : List Entry :=
  h.flatMap fun (job, answer) => (job.newcomer? answer).toList

/- No table becomes known, and the count stands still. -/
def StandsStill (e e' : Engine) : Prop :=
  e'.pool.tables = e.pool.tables ∧ e'.nextTable = e.nextTable

instance : Std.Refl StandsStill := ⟨fun _ => ⟨rfl, rfl⟩⟩

instance : Trans StandsStill StandsStill StandsStill :=
  ⟨fun first second => ⟨second.1.trans first.1, second.2.trans first.2⟩⟩

inductive Registers (e e' : Engine) : Option Entry → Prop where
  | nothing (still : StandsStill e e') : Registers e e' none
  | opened {file : HeapFile} (free : e.pool.tables.get? e.nextTable = none)
      (tables : e'.pool.tables = e.pool.tables.insert e.nextTable file)
      (next : e'.nextTable = e.nextTable + 1) : Registers e e' (some (.opened e.nextTable))
  | placed {file : HeapFile} (free : e.pool.tables.get? file.table = none)
      (tables : e'.pool.tables = e.pool.tables.insert file.table file)
      (next : e'.nextTable = e.nextTable) : Registers e e' (some (.placed file.table))

def SameTables (p q : Pool) : Prop := q.tables = p.tables

instance : Std.Refl SameTables := ⟨fun _ => rfl⟩

instance : Trans SameTables SameTables SameTables := ⟨fun first second => second.trans first⟩

variable {α : Type}

theorem tablesUpkeep (who : Option TxnId) : Pool.FullUpkeep who SameTables :=
  .ofAside (fun _ _ => rfl) (fun _ _ _ _ _ => rfl) fun _ _ _ => rfl

theorem tablesStill {work : Activity Pool α} (h : Upholds SameTables work) :
    Upholds StandsStill (work.within poolPart) := h.within fun _ _ same => ⟨same, rfl⟩

theorem poolStill {work : Instant Pool α} (h : Steps SameTables work) :
    Steps StandsStill (onPool work) := h.inPart fun _ _ same => ⟨same, rfl⟩

theorem finishStill (txn : TxnId) {work : Instant Pool Unit} (h : Steps SameTables work)
    (status : Status) : Steps StandsStill (finish txn work status) :=
  Steps.gets.bind fun _ => (Steps.asks _).bind fun _ => (poolStill h).bind fun _ _ => ⟨rfl, rfl⟩

theorem requestStill (r : Request) : Upholds StandsStill r.work := by
  cases r with
  | begin => exact .bind (.lift fun _ => ⟨rfl, rfl⟩) fun _ => .returns _
  | insert txn table values =>
    exact .bind (tablesStill ((tablesUpkeep _).pieces.insert table _)) fun _ => .returns _
  | delete txn rid =>
    exact .bind (tablesStill ((tablesUpkeep _).pieces.delete _)) fun _ => .returns _
  | scan who table =>
    have known : Steps StandsStill (onPool (Pool.table table)) := poolStill (Pool.tableSteps table)
    refine .bind (.bind (.lift known) fun file => ?_) fun _ => .returns _
    exact tablesStill ((tablesUpkeep who).pieces.scan file)
  | commit txn =>
    exact .bind (.lift (finishStill txn (tablesUpkeep _).pieces.commit _)) fun _ => .returns _
  | abort txn =>
    exact .bind (.lift (finishStill txn (tablesUpkeep _).pieces.abort _)) fun _ => .returns _

theorem openingRegisters (name : String) (width : Nat) (e : Engine) :
    Ends (fun table e' => Registers e e' (some (.opened table))) (StandsStill e)
      (Engine.opening name width e) := by
  have law := openingLaw name width e
  unfold Engine.opening EStateM.adaptExcept
  cases came : openTable name width e with
  | ok table e' =>
    obtain ⟨rfl, next, free, file, -, tables⟩ := law.opens table e' came
    exact .opened free tables next
  | error cause e' =>
    obtain ⟨tables, next, -⟩ := law.fails cause e' came
    exact ⟨tables, next⟩

theorem registerRegisters (file : HeapFile) (e : Engine) :
    (Job.work (.call (.register file)) e).Meets StandsStill (fun _ _ => True)
      (fun e _ e' => Registers e e' (some (.placed file.table))) e := by
  have handed : Ends (fun _ e' => Registers e e' (some (.placed file.table))) (StandsStill e)
      (onPool (Pool.register file) e) := by
    refine Ends.inPart ?_
    rw [Pool.registerCases]
    split
    · exact ⟨rfl, rfl⟩
    · rename_i free
      have fresh : e.pool.tables.get? file.table = none := by
        simpa [KeyMap.contains, poolPart] using free
      exact .placed fresh rfl rfl
  exact (Progress.meetsEnded handed).andThen fun _ _ _ made => made

theorem jobRegisters (job : Job) (e : Engine) :
    (job.work e).Meets StandsStill (fun _ _ => True)
      (fun e a e' => Registers e e' (job.newcomer? (.ok a))) e := by
  have still (upholds : Upholds StandsStill job.work) (silent : ∀ a, job.newcomer? (.ok a) = none) :
      (job.work e).Meets StandsStill (fun _ _ => True)
        (fun e a e' => Registers e e' (job.newcomer? (.ok a))) e :=
    (upholds e).mono (fun _ _ same => same) (fun _ _ any => any)
      fun _ a _ same => silent a ▸ .nothing same
  cases job with
  | call c =>
    by_cases new : ∃ file, c = .register file
    · obtain ⟨file, rfl⟩ := new
      exact registerRegisters file e
    · refine still ?_ fun a => ?_
      · refine .bind (tablesStill fun p => ?_) fun _ => .returns _
        exact (tablesUpkeep _).pieces.call c p fun file same => (new ⟨file, same⟩).elim
      · cases c <;> first | rfl | exact (new ⟨_, rfl⟩).elim
  | operation o =>
    cases o with
    | openTable name width =>
      have answered : (Progress.ended (Engine.opening name width e)).Meets StandsStill
          (fun _ _ => True) (fun e table e' => Registers e e' (some (.opened table))) e :=
        Progress.meetsEnded (openingRegisters name width e)
      have told : (Operation.work (.openTable name width) e).Meets StandsStill (fun _ _ => True)
          (fun e a e' => Registers e e'
            (Job.newcomer? (.operation (.openTable name width)) (.ok (some a)))) e :=
        answered.andThen fun _ _ _ made => made
      exact told.andThen fun _ _ _ made => made
    | flush =>
      have flushed := poolStill (tablesUpkeep none).pieces.flushAll
      exact still (.bind (.bind (.lift flushed) fun _ => .returns _) fun _ => .returns _)
        fun a => by cases a <;> rfl
    | request r =>
      exact still (.bind (.bind (requestStill r) fun _ => .returns _) fun _ => .returns _)
        fun a => rfl

theorem lawOfTables {inv : List Entry → Engine → Prop}
    (keeps : ∀ {list e e' new?}, inv list e → Registers e e' new? →
      inv (new?.toList ++ list) e') :
    busy.Law (fun h e => inv (entries h) e) (fun _ => StandsStill) (fun _ _ _ => True)
      (fun job e a e' => Registers e e' (job.newcomer? (.ok a))) where
  works job _ _ := jobRegisters job _
  stops _ holds same := keeps holds (.nothing same)
  fails job cause holds same := by
    have silent : job.newcomer? (.error cause) = none := by
      cases job with
      | call c => cases c <;> rfl
      | operation o => cases o <;> rfl
    have told := keeps holds (.nothing same)
    rwa [← silent] at told
  ends _ _ holds made := keeps holds made
  idle _ _ := trivial
  join _ _ _ _ _ _ := trivial
  aside _ _ _ _ _ := trivial
  asideDone _ _ _ _ _ _ := trivial

/- The count is one ahead of the tables opened, and the pool knows the tables of the entries
and no others, each from one entry. -/
structure Numbered (list : List Entry) (e : Engine) : Prop where
  next : e.nextTable = .ofNat ((openings list).length + 1)
  counted : (openings list).reverse =
    (List.range (openings list).length).map fun n => .ofNat (n + 1)
  known : ∀ table, e.pool.tables.get? table = none ↔ table ∉ list.map Entry.table
  once : (list.map Entry.table).Nodup

theorem Numbered.knows {list : List Entry} {file : HeapFile} (numbered : Numbered list e)
    (tables : e'.pool.tables = e.pool.tables.insert table file) (other : TableId) :
    e'.pool.tables.get? other = none ↔ other ∉ table :: list.map Entry.table := by
  rw [tables, KeyMap.getInsert, List.mem_cons, not_or, ← numbered.known]
  split
  · rename_i same
    simp [same]
  · rename_i apart
    simp [Ne.symm apart]

theorem Numbered.registers {list : List Entry} {new? : Option Entry} (numbered : Numbered list e)
    (made : Registers e e' new?) : Numbered (new?.toList ++ list) e' := by
  cases made with
  | nothing still =>
    refine ⟨still.2.trans numbered.next, numbered.counted, fun table => ?_, numbered.once⟩
    rw [still.1]
    exact numbered.known table
  | opened free tables next =>
    refine ⟨?_, ?_, numbered.knows tables, ?_⟩
    · rw [next, numbered.next]
      exact (UInt32.ofNat_add ..).symm
    · change (e.nextTable :: openings list).reverse = _
      rw [List.reverse_cons, numbered.counted]
      change _ = (List.range ((openings list).length + 1)).map _
      rw [List.range_succ, List.map_append, numbered.next]
      rfl
    · exact List.nodup_cons.mpr ⟨(numbered.known _).mp free, numbered.once⟩
  | placed free tables next =>
    exact ⟨next.trans numbered.next, numbered.counted, numbered.knows tables,
      List.nodup_cons.mpr ⟨(numbered.known _).mp free, numbered.once⟩⟩

theorem Numbered.ahead {list : List Entry} (numbered : Numbered list e)
    (few : (openings list).length + 1 < UInt32.size) : e.nextTable ∉ openings list := by
  rw [← List.mem_reverse, numbered.counted, numbered.next, List.mem_map]
  rintro ⟨n, inside, same⟩
  rw [List.mem_range] at inside
  have equal := congrArg UInt32.toNat same
  rw [UInt32.toNat_ofNat_of_lt' (by omega), UInt32.toNat_ofNat_of_lt' (by omega)] at equal
  omega

/- The count has come to a number that is taken, and the tables opened are these. -/
structure Stuck (opened : List TableId) (next : TableId) (list : List Entry) (e : Engine) :
    Prop where
  opened : openings list = opened
  stands : e.nextTable = next
  taken : e.pool.tables.get? next ≠ none

theorem Stuck.registers {opened : List TableId} {next : TableId} {list : List Entry}
    {new? : Option Entry} (stuck : Stuck opened next list e) (made : Registers e e' new?) :
    Stuck opened next (new?.toList ++ list) e' := by
  cases made with
  | nothing still => exact ⟨stuck.opened, still.2.trans stuck.stands, still.1 ▸ stuck.taken⟩
  | opened free tables => exact absurd (stuck.stands ▸ free) stuck.taken
  | placed free tables still =>
    refine ⟨stuck.opened, still.trans stuck.stands, ?_⟩
    rw [tables, KeyMap.getInsert]
    split
    · exact Option.some_ne_none _
    · exact stuck.taken

variable {start : Engine} {h h' : History Job (Option Response)}
  {t t' : Traffic Engine Job (Option Response)}

/-- Tables are opened under 1, 2, 3 and so on, whatever else is asked for, and an opening that
fails changes neither the tables known nor the number to come. A usable file is opened exactly
if the pool was not handed a table under that number; if it was, nothing is opened any more. -/
theorem openingsCount (blank : start.pool.tables = .empty) (first : start.nextTable = 1)
    (run : busy.Run start h t) :
    Numbered (entries h) t.state ∧ (∀ name width, Opening name width t.state) ∧
      ((openings (entries h)).length + 1 < UInt32.size →
        ∀ name width, Usable name width t.state →
          ((∃ table e', openTable name width t.state = .ok table e') ↔
            t.state.nextTable ∉ placings (entries h))) ∧
      (t.state.nextTable ∈ placings (entries h) →
        ∀ h' t', Relation.ReflTransGen busy.Step (h, t) (h', t') →
          openings (entries h') = openings (entries h) ∧
            t'.state.nextTable = t.state.nextTable) := by
  have initial : Numbered (entries []) start := by
    refine ⟨first, rfl, fun table => ?_, List.nodup_nil⟩
    rw [blank]
    exact ⟨fun _ => List.not_mem_nil, fun _ => rfl⟩
  have orderly := (lawOfTables Numbered.registers).run initial run
  have numbered := orderly.holds
  refine ⟨numbered, fun name width => openingLaw name width t.state,
    fun few name width usable => ?_,
    fun taken h' t' steps => ?_⟩
  · rw [(openingLaw name width t.state).succeeds, numbered.known, Entry.memTables, not_or]
    exact ⟨fun free => free.2.2, fun free => ⟨usable, numbered.ahead few, free⟩⟩
  · have known : t.state.pool.tables.get? t.state.nextTable ≠ none := by
      rw [Ne, numbered.known, Entry.memTables]
      exact not_not.mpr (.inr taken)
    have stuck : Stuck (openings (entries h)) t.state.nextTable (entries h) t.state :=
      ⟨rfl, rfl, known⟩
    have later := (lawOfTables Stuck.registers).steps ⟨stuck, orderly.ready, orderly.apart⟩ steps
    exact ⟨later.holds.opened, later.holds.stands⟩

/- A pool that is handed one table before any is opened. -/

def sampleBlank : Engine :=
  ⟨{pageSize := 8, poolSize := 1}, {Pool.ofConfig {poolSize := 1} (sampleVolume [] []) with
    draws := []}, .empty, 1⟩

def samplePlaced (table : TableId) : History Job (Option Response) ×
    Traffic Engine Job (Option Response) :=
  busy.next (.call (.register {Pool.sampleFile with table})) ([], ⟨sampleBlank, []⟩)

theorem samplePlacedRun (table : TableId) :
    busy.Run sampleBlank (samplePlaced table).1 (samplePlaced table).2 :=
  .alone busy .start (.call (.register {Pool.sampleFile with table})) trivial rfl

theorem sampleUsable (table : TableId) : Usable "pages" 4 (samplePlaced table).2.state :=
  ⟨⟨"pages", StoreCall.sampleResolved, rfl⟩, ⟨8, 4, by decide, by decide⟩,
    show Layout.ofSizes 8 4 = _ from rfl⟩

theorem sampleOpensFirst : busy.Run sampleBlank (samplePlaced 2).1 (samplePlaced 2).2 ∧
    entries (samplePlaced 2).1 = [.placed 2] ∧ Usable "pages" 4 (samplePlaced 2).2.state ∧
    ∃ table e', openTable "pages" 4 (samplePlaced 2).2.state = .ok table e' := by
  obtain ⟨-, -, sure, -⟩ := openingsCount rfl rfl (samplePlacedRun 2)
  exact ⟨samplePlacedRun 2, rfl, sampleUsable 2,
    (sure (by decide) "pages" 4 (sampleUsable 2)).mpr (by decide)⟩

/- The pool is handed a table under the number that is to come, and the file, usable as it is,
cannot be opened, however often it is tried. -/
theorem placedBlocksOpening : busy.Run sampleBlank (samplePlaced 1).1 (samplePlaced 1).2 ∧
    Usable "pages" 4 (samplePlaced 1).2.state ∧
    ∃ e', openTable "pages" 4 (samplePlaced 1).2.state =
        .error (.registration (.invalid (.tableTaken 1))) e' ∧
      Usable "pages" 4 e' ∧
      ∃ e'', openTable "pages" 4 e' = .error (.registration (.invalid (.tableTaken 1))) e'' := by
  have law := openingLaw "pages" 4 (samplePlaced 1).2.state
  obtain ⟨e', failed⟩ := law.blocked (sampleUsable 1) nofun
  obtain ⟨tables, next, usable⟩ := law.fails _ e' failed
  have again := (openingLaw "pages" 4 e').blocked (usable _ _ (sampleUsable 1)) (by
    rw [tables, next]
    nofun)
  rw [next] at again
  exact ⟨samplePlacedRun 1, sampleUsable 1, e', failed, usable _ _ (sampleUsable 1), again⟩

end Engine
end PagedHeap
