import PagedHeap.Proofs.GuardedRuns

/-! Opening tables. A new volume changes nothing on those in use, so as long as no two tables
share a file a pool stays guarded, whatever is opened and asked for. -/
namespace PagedHeap

namespace Storage

structure Added (s t : Storage) : Prop where
  volumes : ∃ more, t.volumes = s.volumes ++ more
  content : ∀ file, t.directory.content file = s.directory.content file

namespace Added

variable {s t u : Storage} {v : VolumeId}

theorem refl (s : Storage) : Added s s := ⟨⟨[], (List.append_nil _).symm⟩, fun _ => rfl⟩

theorem trans (first : Added s t) (second : Added t u) : Added s u := by
  obtain ⟨some, same⟩ := first.volumes
  obtain ⟨more, later⟩ := second.volumes
  refine ⟨⟨some ++ more, ?_⟩, fun file => (second.content file).trans (first.content file)⟩
  rw [later, same, List.append_assoc]

theorem volume (added : Added s t) (present : v < s.volumes.length) :
    t.volume v = s.volume v := by
  obtain ⟨more, same⟩ := added.volumes
  simp only [Storage.volume, List.getD_eq_getElem?_getD, same, List.getElem?_append_left present]

theorem pageSize (added : Added s t) (present : v < s.volumes.length) :
    t.pageSize v = s.pageSize v := congrArg Volume.pageSize (added.volume present)

theorem pages (added : Added s t) (present : v < s.volumes.length) : t.pages v = s.pages v := by
  simp only [Storage.pages, Storage.pageSize, added.volume present, added.content]

theorem page? (added : Added s t) (present : v < s.volumes.length) (n : Nat) :
    t.page? v n = s.page? v n := by
  simp only [Storage.page?, Storage.pageSize, Directory.bytes, added.volume present, added.content]
  rfl

theorem apart (added : Added s t) {w : VolumeId} (left : v < s.volumes.length)
    (right : w < s.volumes.length) (apart : s.Apart v w) : t.Apart v w := by
  refine ⟨apart.1, fun a b first second => apart.2 a b ?_ ?_⟩
  · rwa [← added.volume left]
  · rwa [← added.volume right]

end Added

theorem openFileEnds (name : String) (pageSize : Nat) (s : Storage) :
    Ends (fun v t => Added s t ∧ v = s.volumes.length ∧
        ∃ file, s.directory.resolve name = .ok file ∧ (t.volume v).medium = .file file)
      (Added s) (openFile name pageSize s) := by
  unfold openFile
  have sized : Ends (fun _ t => t = s) (Added s) (demand Storage (checkSize pageSize) s) :=
    .demand (fun _ _ => rfl) (.refl s)
  refine sized.andThen (fun _ a same => ?_) (fun _ lost => lost)
  obtain rfl := same
  have named : Ends (fun file t => t = a ∧ a.directory.resolve name = .ok file) (Added a)
      (served Storage (a.directory.resolve name) a) :=
    .served (fun _ found => ⟨rfl, found⟩) (.refl a)
  refine named.andThen (fun file b found => ?_) (fun _ lost => lost)
  obtain ⟨rfl, found⟩ := found
  have ensured : Added b {b with directory := b.directory.ensure file} :=
    ⟨⟨[], (List.append_nil _).symm⟩, b.directory.contentEnsure file⟩
  have whole : Ends (fun _ t => t = {b with directory := b.directory.ensure file}) (Added b)
      (demand Storage (checkWhole (b.directory.ensure file) name file pageSize)
        {b with directory := b.directory.ensure file}) := .demand (fun _ _ => rfl) ensured
  refine whole.andThen (fun _ c same => ?_) (fun _ lost => lost)
  obtain rfl := same
  have joined : Added {b with directory := b.directory.ensure file} {b with
      directory := b.directory.ensure file
      volumes := b.volumes ++ [⟨pageSize, .file file, [], [], []⟩]} := ⟨⟨_, rfl⟩, fun _ => rfl⟩
  refine ⟨ensured.trans joined, rfl, file, found, ?_⟩
  simp [Storage.volume]

end Storage

open Storage (Added)

theorem HeapFile.onFileEnds (name : String) (table : TableId) (width pageSize : Nat) (s : Storage) :
    Ends (fun f t => Added s t ∧ f.volume = s.volumes.length ∧
        t.pageSize f.volume = f.layout.pageSize ∧ ∃ file, s.directory.resolve name = .ok file ∧
          (t.volume f.volume).medium = .file file)
      (Added s) (onFile name table width pageSize s) := by
  refine (Storage.openFileEnds name pageSize s).andThen (fun v t opened => ?_) (fun _ lost => lost)
  obtain ⟨added, last, served⟩ := opened
  unfold onVolume
  rw [getThen]
  have laid : Ends (fun layout u => u = t ∧ t.pageSize v = layout.pageSize) (Added s)
      (demand Storage (Layout.ofSizes (t.pageSize v) width) t) := by
    refine .demand (fun layout made => ⟨rfl, ?_⟩) added
    unfold Layout.ofSizes at made
    split at made
    · cases made
      rfl
    · cases made
  refine laid.andThen (fun layout u here => ?_) (fun _ lost => lost)
  obtain ⟨rfl, size⟩ := here
  exact ⟨added, last, size, served⟩

namespace Pool

variable {p q : Pool}

theorem Housed.volumePresent (housed : p.Housed) {table : TableId} {file : HeapFile}
    (found : p.tables.get? table = some file) : file.volume < p.storage.volumes.length :=
  Storage.volumePresent (housed.sized _ _ found ▸ file.layout.sizePositive)

theorem Housed.added (housed : p.Housed) {storage : Storage} (added : Added p.storage storage) :
    Housed {p with storage} where
  named := housed.named
  sized table file found :=
    (added.pageSize (housed.volumePresent found)).trans (housed.sized table file found)
  bounded := housed.bounded
  keeps page frame present := by
    obtain ⟨file, found, key, layout, inside⟩ := housed.keeps page frame present
    rw [← added.pages (housed.volumePresent found)] at inside
    exact ⟨file, found, key, layout, inside⟩

theorem Separate.added (apart : p.Separate) (housed : p.Housed) {storage : Storage}
    (added : Added p.storage storage) : Separate {p with storage} := fun a b f g left right away =>
  added.apart (housed.volumePresent left) (housed.volumePresent right)
    (apart a b f g left right away)

theorem Guarded.register (guarded : p.Guarded) {file : HeapFile} (fits : p.Fits file)
    (move : Move (.register file) p q) : q.Guarded := by
  have sound := guarded.toSound.move move
  cases move with
  | register =>
    exact ⟨sound, guarded.apart.register fits, guarded.coherent, guarded.owned⟩

theorem Guarded.added (guarded : p.Guarded) {storage : Storage}
    (added : Added p.storage storage) : Guarded {p with storage} where
  toHoused := guarded.toHoused.added added
  faithful _ page frame present clean numbered := by
    obtain ⟨file, found, _⟩ := guarded.keeps page frame present
    have same (n : Nat) := added.page? (guarded.toHoused.volumePresent found) n
    have before : p.Numbered page.table := fun other known => by
      have few := numbered other known
      rwa [added.pages (guarded.toHoused.volumePresent known)] at few
    have kept := guarded.faithful guarded.apart page frame present clean before
    simp only [image?, found, Option.bind_some, same] at kept ⊢
    exact kept
  apart := guarded.apart.added guarded.toHoused added
  coherent := guarded.coherent
  owned := guarded.owned

/- Tables are on volumes of their own, nothing is in the cache, and no page is locked. -/
structure Unused (p : Pool) : Prop extends Housed p where
  apart : p.Separate
  resident : p.resident = .empty
  locks : p.locks = .empty

theorem Unused.guarded (unused : p.Unused) : p.Guarded where
  toHoused := unused.toHoused
  faithful _ page frame present := by
    rw [unused.resident] at present
    cases present
  apart := unused.apart
  coherent := by
    rw [unused.locks]
    exact LockTable.emptyCoherent
  owned page frame txn present := by
    rw [unused.resident] at present
    cases present

/- Tables stand under their own numbers with pages of their size, and nothing has been asked for
yet. -/
structure Fresh (p : Pool) : Prop where
  named : ∀ table file, p.tables.get? table = some file → file.table = table
  sized : ∀ table file, p.tables.get? table = some file →
    p.storage.pageSize file.volume = file.layout.pageSize
  resident : p.resident = .empty
  locks : p.locks = .empty

theorem Fresh.housed (fresh : p.Fresh) : p.Housed where
  named := fresh.named
  sized := fresh.sized
  bounded := by
    rw [fresh.resident]
    exact Nat.zero_le _
  keeps page frame present := by
    rw [fresh.resident] at present
    cases present

theorem Fresh.unused (fresh : p.Fresh) (apart : p.Separate) : p.Unused :=
  ⟨fresh.housed, apart, fresh.resident, fresh.locks⟩

theorem Unused.fresh (unused : p.Unused) : p.Fresh :=
  ⟨unused.named, unused.sized, unused.resident, unused.locks⟩

/- Tables on volumes of their own, before anything has been asked for. -/

theorem unusedAlone (config : Config) (storage : Storage) (draws : List Nat) (file : HeapFile)
    (own : storage.pageSize file.volume = file.layout.pageSize) :
    Unused {ofConfig config storage with draws, tables := KeyMap.empty.insert file.table file} :=
  have empty := newSound config storage draws
  have apart : Separate {ofConfig config storage with draws} := nofun
  ⟨empty.toHoused.move (.register rfl own), apart.register ⟨own, nofun⟩, rfl, rfl⟩

theorem unusedPair (config : Config) (storage : Storage) (draws : List Nat)
    (first second : HeapFile) (own : storage.pageSize first.volume = first.layout.pageSize)
    (own' : storage.pageSize second.volume = second.layout.pageSize)
    (apart : storage.Apart second.volume first.volume) (other : first.table ≠ second.table) :
    Unused {ofConfig config storage with
      draws, tables := (KeyMap.empty.insert first.table first).insert second.table second} := by
  have alone := unusedAlone config storage draws first own
  refine ⟨alone.toHoused.move (.register ?_ own'),
    alone.apart.register ⟨own', fun table file found => ?_⟩, rfl, rfl⟩
  · exact (KeyMap.getInsert ..).trans (if_neg other)
  · obtain rfl | none := KeyMap.insertSource found
    · exact apart
    · cases none

end Pool

namespace Engine

variable {e : Engine} {name : String}

/- The name leads to no file that a table is kept in. -/
def Unshared (name : String) (e : Engine) : Prop :=
  ∀ file, e.pool.storage.directory.resolve name = .ok file →
    ∀ table home, e.pool.tables.get? table = some home →
      (e.pool.storage.volume home.volume).medium ≠ .file file

/- What opening a table has done: volumes have been added, and with success a file has been
registered. It fits in if no other table is kept in it. -/
theorem openingEnds (housed : e.pool.Housed) (name : String) (width : Nat) :
    Ends (fun _ e' => ∃ storage file, Added e.pool.storage storage ∧
        (e.Unshared name → Pool.Fits {e.pool with storage} file) ∧
        Pool.Move (.register file) {e.pool with storage} e'.pool)
      (fun e' => ∃ storage, Added e.pool.storage storage ∧ e'.pool = {e.pool with storage})
      (opening name width e) := by
  rw [openingPlain]
  have made : Ends (fun f a => ∃ storage, Added e.pool.storage storage ∧
        a.pool = {e.pool with storage} ∧ a.pool.Suits f ∧ (e.Unshared name → a.pool.Fits f))
      (fun a => ∃ storage, Added e.pool.storage storage ∧ a.pool = {e.pool with storage})
      (onPool (Pool.onStorage (HeapFile.onFile name e.nextTable width e.config.pageSize)) e) := by
    refine Ends.inPart (Ends.inPart ((HeapFile.onFileEnds name e.nextTable width e.config.pageSize
      e.pool.storage).mono (fun f storage opened => ?_) fun storage added => ⟨storage, added, rfl⟩))
    obtain ⟨added, last, size, file, found, medium⟩ := opened
    refine ⟨storage, added, rfl, size, fun unshared => ⟨size, fun table other known => ?_⟩⟩
    have present := housed.volumePresent known
    have away : f.volume ≠ other.volume := fun same => Nat.ne_of_gt present (last.symm.trans same)
    refine ⟨away, fun a b new old same => unshared file found table other known ?_⟩
    cases medium.symm.trans new
    rw [same, ← added.volume present]
    exact old
  refine made.andThen (fun f a here => ?_) (fun _ lost => lost)
  obtain ⟨storage, added, same, suits, fits⟩ := here
  have registered : Ends (fun _ b => Pool.Move (.register f) a.pool b.pool)
      (fun b => b.pool = a.pool) (onPool (Pool.register f) a) :=
    Ends.inPart ((Pool.registerEnds fun _ => suits).mono (fun _ _ move => move) fun _ lost => lost)
  exact registered.andThen (fun _ b move => ⟨storage, f, added, same ▸ fits, same ▸ move⟩)
    (fun b lost => ⟨storage, added, lost.trans same⟩)

theorem openingGuarded (guarded : e.pool.Guarded) (unshared : e.Unshared name) (width : Nat) :
    Ends (fun _ e' => e'.pool.Guarded) (fun e' => e'.pool.Guarded) (opening name width e) := by
  refine (openingEnds guarded.toHoused name width).mono (fun _ e' opened => ?_)
    (fun e' failed => ?_)
  · obtain ⟨storage, file, added, fits, move⟩ := opened
    exact (guarded.added added).register (fits unshared) move
  · obtain ⟨storage, added, same⟩ := failed
    exact same ▸ guarded.added added

def Anything : Operation → Prop := fun _ => True

/- Whatever is asked for, and tables that are opened when nobody waits. -/
inductive Reached : Traffic Engine Operation Response → Prop
  | unused {e : Engine} (unused : e.pool.Unused) : Reached ⟨e, []⟩
  | opened {e e' : Engine} {name width table} (before : Reached ⟨e, []⟩)
      (unshared : e.Unshared name) (done : opening name width e = .ok table e') : Reached ⟨e', []⟩
  | unopened {e e' : Engine} {name width cause} (before : Reached ⟨e, []⟩)
      (unshared : e.Unshared name) (failed : opening name width e = .error cause e') :
      Reached ⟨e', []⟩
  | stepped {h h' t t'} (before : Reached t) (step : (steady Anything).Step (h, t) (h', t')) :
      Reached t'

theorem Reached.asked (before : History Operation Response × Traffic Engine Operation Response)
    (reached : Reached before.2) (r : Request) (idle : before.2.waiting = []) :
    Reached ((steady Anything).next (.request r) before).2 :=
  .stepped reached (.alone (steady Anything) (.request r) ⟨trivial, nofun⟩ idle)

theorem keptNothing : Kept Anything fun _ _ => True :=
  ⟨fun _ _ _ _ same => same, fun _ _ same => same, fun _ _ _ _ _ same => same⟩

theorem orderlyAlone {h : History Operation Response} (guarded : e.pool.Guarded) :
    (steady Anything).Orderly (Guarding fun _ _ => True) (Stretches Anything) Bystanders
      (Answers Anything) h ⟨e, []⟩ :=
  ⟨⟨guarded, trivial⟩, fun _ there => (List.not_mem_nil there).elim, .nil⟩

theorem Reached.orderly {t : Traffic Engine Operation Response} (reached : Reached t)
    (h : History Operation Response) :
    (steady Anything).Orderly (Guarding fun _ _ => True) (Stretches Anything) Bystanders
      (Answers Anything) h t := by
  induction reached generalizing h with
  | unused unused => exact orderlyAlone unused.guarded
  | @opened _ _ _ width _ _ unshared done ih =>
    have opened := openingGuarded (ih []).holds.1 unshared width
    rw [done] at opened
    exact orderlyAlone opened
  | @unopened _ _ _ width _ _ unshared failed ih =>
    have lost := openingGuarded (ih []).holds.1 unshared width
    rw [failed] at lost
    exact orderlyAlone lost
  | stepped before step ih =>
    have later := (lawOfGuards keptNothing).step (ih _) step
    exact ⟨later.holds, later.ready, later.apart⟩

theorem sampleUnused (image : Bytes) (script : List Fault) :
    (sampleTable image script).pool.Unused :=
  Pool.unusedAlone {poolSize := 2} (sampleVolume image script) [] Pool.sampleFile rfl

/- Two tables on volumes of their own, the first one with a page that is full. -/

def sampleVolumes : Storage := ⟨.empty "", [⟨8, .memory [[1, 7, 0, 0, 0, 0, 0, 0]], [], [], []⟩,
  ⟨8, .memory [[0, 0, 0, 0, 0, 0, 0, 0]], [], [], []⟩]⟩

def sampleOther : HeapFile := {Pool.sampleFile with table := 2, volume := 1}

def sampleTables : Engine :=
  {sampleStart with
    pool := {Pool.ofConfig {poolSize := 4} sampleVolumes with
      draws := [], tables := (KeyMap.empty.insert 1 Pool.sampleFile).insert 2 sampleOther}
    nextTable := 3}

theorem sampleTablesUnused : sampleTables.pool.Unused :=
  Pool.unusedPair {poolSize := 4} sampleVolumes [] Pool.sampleFile sampleOther rfl rfl
    ⟨by decide, nofun⟩ (by decide)

theorem sampleKnown {table : TableId} {file : HeapFile}
    (found : sampleTables.pool.tables.get? table = some file) :
    file = sampleOther ∨ file = Pool.sampleFile := by
  obtain rfl | rest := KeyMap.insertSource found
  · exact .inl rfl
  · obtain rfl | none := KeyMap.insertSource rest
    · exact .inr rfl
    · cases none

end Engine
end PagedHeap
