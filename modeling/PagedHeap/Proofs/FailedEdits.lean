import PagedHeap.Proofs.Inserts
import PagedHeap.Proofs.LockFootprints
import PagedHeap.Proofs.WriteFree

/-! Inserts and deletes that fail. All that such a call has done is to look for a place: it has
changed no record and no mark, and written nothing. At most the file has grown by a blank page. -/
namespace PagedHeap.Pool

variable {p q : Pool} {txn : TxnId} {who : Option TxnId} {act : Act}

/- The record in the hands of whoever calls. It is told its place as soon as its bytes are stored,
which is before the page is made the one copy in the cache. -/

def inHand : Part (Pool × Record) Pool := ⟨Prod.fst, fun s pool => (pool, s.2),
  fun _ _ => rfl, fun _ _ _ => rfl⟩

inductive Edit where
  | insert (table : TableId)
  | delete

def storeRecord (txn : TxnId) (table : TableId) (data : Bytes) : Activity Pool (Rid × Frame) := do
  let file ← Pool.table table
  file.insert txn data

def Edit.work (txn : TxnId) : Edit → Activity (Pool × Record) Unit
  | .insert table => do
    let (_, record) ← (get : Instant (Pool × Record) (Pool × Record))
    let (rid, frame) ← (storeRecord txn table record.data).within inHand
    (modify fun s => (s.1, {s.2 with rid := some rid}) : Instant (Pool × Record) Unit)
    (monadLift (pin txn frame) : Activity Pool Unit).within inHand
  | .delete => do
    let (_, record) ← (get : Instant (Pool × Record) (Pool × Record))
    (Pool.delete txn record.rid).within inHand

theorem storeEnds (housed : p.Housed) (txn : TxnId) (table : TableId) (data : Bytes) :
    Ends (fun x q => Pinned txn x.2 q) (fun _ => True)
      ((storeRecord txn table data).settled p) := by
  simp only [storeRecord, HeapFile.insert, Activity.settledBind, Activity.settledLift]
  refine (tableEnds p table).andThen (fun file q here => ?_) (fun _ _ => trivial)
  obtain ⟨rfl, found⟩ := here
  obtain rfl := housed.named table file found
  have width : Ends (fun _ r => r = q) (fun _ => True) (demand Pool (file.checkWidth data) q) :=
    .demand (fun _ _ => rfl) trivial
  refine width.andThen (fun _ r same => ?_) (fun _ _ => trivial)
  subst same
  exact ((insertWithinReaches housed found data UInt32.size).settled housed).mono
    (fun x s ended => ended.elim fun _ filled => filled.2.2.1) (fun _ _ => trivial)

theorem insertStores (txn : TxnId) (table : TableId) (data : Bytes) :
    (insert txn table data).settled =
      (storeRecord txn table data).settled >>= fun x => pin txn x.2 >>= fun _ => pure x.1 := by
  simp only [insert, storeRecord, Activity.settledBind, Activity.settledLift, bind_assoc]
  rfl

theorem insertInHand (housed : p.Housed) (table : TableId) (record : Record) :
    ((Edit.insert table).work txn).settled (p, record) =
      match (insert txn table record.data).settled p with
      | .ok rid q => .ok () (q, {record with rid := some rid})
      | .error cause q => .error cause (q, record) := by
  have stored := storeEnds housed txn table record.data
  rw [insertStores]
  simp only [Edit.work, Activity.settledBind, Activity.settledLift, Activity.settledWithin]
  rw [getThen]
  cases done : (storeRecord txn table record.data).settled p with
  | ok x q =>
    rw [done] at stored
    have made : inHand.instant (storeRecord txn table record.data).settled (p, record) =
        .ok x (q, record) := congrArg (inHand.outcome (p, record)) done
    have pinned : (pin txn x.2 >>= fun _ => pure x.1) q = .ok x.1 q := okThen (pinSame stored) _
    rw [okThen made, okThen done, pinned]
    change inHand.outcome (q, {record with rid := some x.1}) (pin txn x.2 q) = _
    rw [pinSame stored]
    rfl
  | error cause q =>
    have lost : inHand.instant (storeRecord txn table record.data).settled (p, record) =
        .error cause (q, record) := congrArg (inHand.outcome (p, record)) done
    rw [errorThen lost, errorThen done]

theorem deleteInHand (record : Record) :
    (Edit.delete.work txn).settled (p, record) =
      match (delete txn record.rid).settled p with
      | .ok _ q => .ok () (q, record)
      | .error cause q => .error cause (q, record) := by
  simp only [Edit.work, Activity.settledBind, Activity.settledLift, Activity.settledWithin]
  rw [getThen]
  change inHand.outcome _ ((delete txn record.rid).settled p) = _
  cases (delete txn record.rid).settled p <;> rfl

/- What is left of a search that was in vain. -/

def mark? (p : Pool) (page : PageId) : Option TxnId :=
  (p.resident.get? page).bind fun frame => frame.page.dirtiedBy

theorem Move.sameMark? (allowed : act.seeks who) (move : Move act p q) (page : PageId) :
    q.mark? page = p.mark? page := by
  cases move with
  | @load _ home _ frame absent space found copied =>
    simp only [mark?, KeyMap.getInsert]
    split
    · rename_i same
      subst same
      rw [absent]
      exact copied.clean
    · rfl
  | @evict _ home frame present clean =>
    simp only [mark?, residentDrop]
    split
    · rename_i same
      subst same
      rw [present]
      exact clean.symm
    · rfl
  | aside | take | unprobe | extend => rfl
  | _ => exact allowed.elim

theorem Moves.sameMark? (moves : Moves (Act.seeks who) p q) (page : PageId) :
    q.mark? page = p.mark? page :=
  moves.within (fun p q => q.mark? page = p.mark? page) (fun _ => rfl)
    (fun _ _ _ first second => second.trans first) fun _ _ _ allowed move =>
      move.sameMark? allowed page

/- What a failed call has left, of the pool it was made on. -/
structure Spoilt (txn : TxnId) (p q : Pool) : Prop where
  marks : ∀ page, q.mark? page = p.mark? page
  locks : ∀ other, other ≠ txn → q.locks.heldBy other = p.locks.heldBy other
  unwritten : p.storage.Unwritten q.storage

def Adds (edit : Edit) (p q : Pool) : Prop :=
  p.storage.Observed q.storage ∨ ∃ table file, edit = .insert table ∧
    p.tables.get? table = some file ∧
    p.storage.Extended q.storage file.volume file.layout.blankImage

def Unharmed (p q : Pool) : Prop :=
  ∀ page image, p.view? page = some image → q.view? page = some image

/- The volumes are told of where pages can be counted in words and files grow by blank ones, and
the pages where tables are on volumes of their own besides. -/
def Fails (txn : TxnId) (edit : Edit) (p q : Pool) : Prop :=
  Spoilt txn p q ∧ (p.Room → p.Spared .fill → Adds edit p q ∧ (p.Separate → Unharmed p q))

theorem Searched.adds {table : TableId} (housed : p.Housed) (room : p.Room)
    (blank : p.Spared .fill) (searched : Searched txn table p q) : Adds (.insert table) p q := by
  cases searched with
  | only moves => exact .inl moves.observed
  | @added file a b _ known own early extended late =>
    have there := housed.moves early
    have before := early.observed
    cases extended with
    | @extend _ _ its storage found enlarged =>
      cases found.symm.trans (known.later early.grew)
      have size := there.sized _ _ found
      obtain ⟨image, extended, zeroes⟩ := enlarged.fresh (size ▸ file.layout.sizePositive)
        (before.pages _ ▸ room _ _ known)
      rw [size] at zeroes
      obtain rfl := zeroes (before.spares _ _ (blank _ _ known))
      exact .inr ⟨table, file, rfl, own ▸ known, (before.extended extended).observed late.observed⟩

theorem Searched.unharmed {table : TableId} (able : p.Searchable) (room : p.Room)
    (blank : p.Spared .fill) (searched : Searched txn table p q) : Unharmed p q := by
  intro page image seen
  cases searched with
  | only moves => exact ((able.probed moves).2.views page).trans seen
  | added known own early extended late =>
    obtain ⟨_, grown⟩ := able.grown known (room _ _ known) (blank _ _ known) early extended late
    rw [grown.views, if_neg]
    · exact seen
    · rintro ⟨home, last⟩
      exact absurd last (Nat.ne_of_lt (viewInside able.toHoused (home ▸ known) seen))

theorem Moves.spoils (moves : Moves (Act.seeks (some txn)) p q) (unwritten : Unwritten p q) :
    Spoilt txn p q where
  marks := moves.sameMark?
  locks _ away := (moves.mono fun _ => Act.seeksOwn).heldBy fun same =>
    away (Option.some.inj same).symm
  unwritten := unwritten

theorem Sound.insertFails (sound : p.Sound) (txn : TxnId) (table : TableId) (data : Bytes) :
    Ends (fun _ _ => True) (Fails txn (.insert table) p)
      ((insert txn table data).settled p) := by
  have reached := (insertReaches sound.toHoused table data : Reaches _ _ _ (insert txn table data p)
    p).settled sound.toHoused
  have unwritten := ((unwrittenUpkeep (some txn)).pieces.insert table data).settled p
  have left (room : p.Room) (blank : p.Spared .fill) :=
    insertLocks sound.toHoused room blank txn table data
  change Ends _ _ ((insert txn table data).settled p) at reached
  cases done : (insert txn table data).settled p with
  | ok rid q => trivial
  | error cause q =>
    rw [done] at reached unwritten left
    refine ⟨(Moves.mono reached fun _ => And.left).spoils unwritten, fun room blank => ?_⟩
    obtain ⟨_, searched⟩ := left room blank
    exact ⟨searched.adds sound.toHoused room blank,
      fun apart => searched.unharmed (sound.searchable apart room) room blank⟩

theorem Sound.deleteFails (sound : p.Sound) (txn : TxnId) (rid : Option Rid) :
    Ends (fun _ _ => True) (Fails txn .delete p) ((delete txn rid).settled p) := by
  have unwritten := ((unwrittenUpkeep (some txn)).pieces.delete rid).settled p
  cases rid with
  | none =>
    have none : Moves (Act.seeks (some txn)) p p := .refl
    exact ⟨none.spoils (.same rfl), fun _ _ => ⟨.inl (.refl _), fun _ _ _ seen => seen⟩⟩
  | some place =>
    have reached := (deleteAtReaches sound.toHoused place : Reaches _ _ _
      (delete txn (some place) p) p).settled sound.toHoused
    change Ends _ _ ((delete txn (some place)).settled p) at reached
    cases done : (delete txn (some place)).settled p with
    | ok _ q => trivial
    | error cause q =>
      rw [done] at reached unwritten
      have read : Moves (Act.reads (some txn)) p q := Moves.mono reached fun _ => And.left
      have probed : Moves (Act.probes (some txn)) p q := read.mono fun _ => Act.readsProbes
      refine ⟨read.asSeeks.spoils unwritten, fun room _ => ⟨.inl probed.observed,
        fun apart page image seen => ?_⟩⟩
      exact (((sound.searchable apart room).probed probed).2.views page).trans seen

/-- An insert or a delete that nobody disturbs, whatever it fails of: the record has been told no
place, no mark has changed and no lock of anybody else, and no volume was asked to store a page. As
long as pages can be counted in words and none is laid up as full, the volumes are as they were but
for one blank page that an insert may have added to its table; and if no two tables are on one
volume, every page is seen as it was. -/
theorem failedEditsLeave {config : Config} {storage : Storage} {draws : List Nat}
    {h : History PoolCall Unit} {t : Traffic Pool PoolCall Unit}
    (run : sharing.Run {ofConfig config storage with draws} h t) (edit : Edit)
    {record after : Record} {cause : Error}
    (failed : (edit.work txn).settled (t.state, record) = .error cause (q, after)) :
    after = record ∧ Spoilt txn t.state q ∧
      (t.state.Room → t.state.Spared .fill →
        Adds edit t.state q ∧ (t.state.Separate → Unharmed t.state q)) := by
  have sound := (sharingSound run).1
  cases edit with
  | insert table =>
    rw [insertInHand sound.toHoused] at failed
    have fails := sound.insertFails txn table record.data
    cases done : (insert txn table record.data).settled t.state with
    | ok rid p =>
      rw [done] at failed
      cases failed
    | error reason p =>
      rw [done] at failed fails
      cases failed
      exact ⟨rfl, fails⟩
  | delete =>
    rw [deleteInHand] at failed
    have fails := sound.deleteFails txn record.rid
    cases done : (delete txn record.rid).settled t.state with
    | ok rid p =>
      rw [done] at failed
      cases failed
    | error reason p =>
      rw [done] at failed fails
      cases failed
      exact ⟨rfl, fails⟩

/- The cache has no place for the page that was added: its only page is changed, not committed. -/

def sampleFilling : History PoolCall Unit × Traffic Pool PoolCall Unit :=
  sharing.next (.insert 1 1 [7, 0, 0, 0])
    (sharing.next (.register sampleFile) ([], ⟨sampleStart, []⟩))

theorem sampleFailureLeaves : sharing.Run sampleStart sampleFilling.1 sampleFilling.2 ∧
    ∃ q, ((Edit.insert 1).work 1).settled (sampleFilling.2.state, ⟨none, [9, 0, 0, 0]⟩) =
        .error (.exhausted 1) (q, ⟨none, [9, 0, 0, 0]⟩) ∧
      q.storage.pages 0 = 2 ∧ Spoilt 1 sampleFilling.2.state q ∧
      Adds (.insert 1) sampleFilling.2.state q ∧ Unharmed sampleFilling.2.state q := by
  have suits : sampleStart.Suits sampleFile := rfl
  have run : sharing.Run sampleStart sampleFilling.1 sampleFilling.2 :=
    .alone sharing (.alone sharing .start (.register sampleFile) (fun _ => suits) rfl)
      (.insert 1 1 [7, 0, 0, 0]) trivial rfl
  obtain ⟨q, failed, grown⟩ : ∃ q, ((Edit.insert 1).work 1).settled
      (sampleFilling.2.state, ⟨none, [9, 0, 0, 0]⟩) =
        .error (.exhausted 1) (q, ⟨none, [9, 0, 0, 0]⟩) ∧ q.storage.pages 0 = 2 := ⟨_, rfl, rfl⟩
  have only {table : TableId} {file : HeapFile}
      (found : sampleFilling.2.state.tables.get? table = some file) :
      table = 1 ∧ file = sampleFile := by
    replace found := (KeyMap.getInsert ..).symm.trans found
    split at found
    · rename_i same
      exact ⟨same.symm, (Option.some.inj found).symm⟩
    · cases found
  have room : sampleFilling.2.state.Room := fun table file found => by
    rw [(only found).2]
    decide
  have blank : sampleFilling.2.state.Spared .fill := fun table file found => by
    rw [(only found).2]
    exact Storage.sparesAll rfl rfl
  have apart : sampleFilling.2.state.Separate := fun a b f g left right away =>
    absurd ((only left).1.trans (only right).1.symm) away
  obtain ⟨_, spoilt, unharmed⟩ := failedEditsLeave run (.insert 1) failed
  obtain ⟨adds, views⟩ := unharmed room blank
  exact ⟨run, q, failed, grown, spoilt, adds, views apart⟩

/- The first page of a crowded file is in use, and there is no cache to keep it in. -/

def wornStart : Pool :=
  {ofConfig {poolSize := 0} ⟨(Directory.empty "").put "t" [⟨2, 1⟩, ⟨8589934590, 0⟩],
    [⟨2, .file "t", [], [], []⟩]⟩ with draws := []}

def wornRun : History PoolCall Unit × Traffic Pool PoolCall Unit :=
  sharing.next (.register crowdedFile) ([], ⟨wornStart, []⟩)

/- A file of two pages under two tables. The cache keeps page 0 as the first table has read
it, while the second one changes it. -/

def sharedStart : Pool :=
  {ofConfig {poolSize := 2} ⟨(Directory.empty "").put "t" [⟨16, 0⟩],
    [⟨8, .file "t", [], [], []⟩, ⟨8, .file "t", [], [], []⟩]⟩ with draws := []}

def sharedTables : History PoolCall Unit × Traffic Pool PoolCall Unit :=
  sharing.next (.register {sampleFile with table := 2, volume := 1})
    (sharing.next (.register sampleFile) ([], ⟨sharedStart, []⟩))

def sharedRun : History PoolCall Unit × Traffic Pool PoolCall Unit :=
  sharing.next (.commit 2) (sharing.next (.insert 2 2 [7, 0, 0, 0])
    (sharing.next (.get 1 ⟨1, 0⟩ .shared) sharedTables))

theorem sharedReached : sharing.Run sharedStart sharedRun.1 sharedRun.2 := by
  have suits : sharedStart.Suits sampleFile := rfl
  have tables : sharing.Run sharedStart sharedTables.1 sharedTables.2 :=
    .alone sharing (.alone sharing .start (.register sampleFile) (fun _ => suits) rfl)
      (.register {sampleFile with table := 2, volume := 1}) (fun _ => suits) rfl
  exact .alone sharing (.alone sharing
    (.alone sharing tables (.get 1 ⟨1, 0⟩ .shared) trivial rfl)
      (.insert 2 2 [7, 0, 0, 0]) trivial rfl) (.commit 2) trivial rfl

/- A page is lost to an insert that fails, and one is seen changed after a delete that fails. -/
theorem failedEditsHarm :
    (sharing.Run wornStart wornRun.1 wornRun.2 ∧
      ∃ q, ((Edit.insert 1).work 1).settled (wornRun.2.state, ⟨none, [9]⟩) =
          .error (.exhausted 0) (q, ⟨none, [9]⟩) ∧
        wornRun.2.state.view? ⟨1, 0⟩ = some [1, 1] ∧ q.view? ⟨1, 0⟩ = some [0, 0]) ∧
    (sharing.Run sharedStart sharedRun.1 sharedRun.2 ∧
      ∃ q, (Edit.delete.work 3).settled (sharedRun.2.state, ⟨some ⟨⟨2, 1⟩, 0⟩, []⟩) =
          .error (.invalid (.slotEmpty 0 ⟨2, 1⟩)) (q, ⟨some ⟨⟨2, 1⟩, 0⟩, []⟩) ∧
        sharedRun.2.state.view? ⟨1, 0⟩ = some [0, 0, 0, 0, 0, 0, 0, 0] ∧
        q.view? ⟨1, 0⟩ = some [1, 7, 0, 0, 0, 0, 0, 0]) := by
  have suits : wornStart.Suits crowdedFile := rfl
  have worn : sharing.Run wornStart wornRun.1 wornRun.2 :=
    .alone sharing .start (.register crowdedFile) (fun _ => suits) rfl
  exact ⟨⟨worn, _, rfl, rfl, rfl⟩, sharedReached, _, rfl, rfl, rfl⟩

end PagedHeap.Pool
