import PagedHeap.Proofs.KeyedPools
import PagedHeap.Proofs.LockFootprints

/-! What a changed page still needs when an insert or a delete has ended. It is the copy in the
cache, it carries its mark, and its transaction owns it, so making it the one copy of its page does
nothing at all. -/
namespace PagedHeap.Pool

variable {txn : TxnId} {page : PageId} {p : Pool}

/- What the work of a table leaves to be done. -/

/- The frame is the copy in the cache, marked by a transaction that has the page to itself. -/
structure Fixed (txn : TxnId) (frame : Frame) (p : Pool) : Prop where
  resident : p.resident.get? frame.page.id = some frame
  marked : frame.page.dirtiedBy = some txn
  owned : p.locks.access? txn frame.page.id = some .exclusive
  alone : ∀ other, other ≠ txn → p.locks.access? other frame.page.id = none

structure Taken (txn : TxnId) (page : PageId) (frame : Frame) (p : Pool) : Prop where
  key : frame.page.id = page
  pinned : Pinned txn frame p
  owned : p.locks.access? txn page = some .exclusive

theorem Taken.fixed {frame : Frame} (taken : Taken txn page frame p)
    (coherent : p.locks.Coherent) : Fixed txn frame p := by
  obtain ⟨rfl, ⟨resident, marked⟩, owned⟩ := taken
  exact ⟨resident, marked, owned, fun _ apart => coherent.alone owned apart⟩

/- Where the bytes of a record are in a page, by the number that their place was given. -/
def Carries (page : Page) (rid : Rid) (data : Bytes) : Prop :=
  ∃ slot, rid = ⟨page.id, .ofNat slot⟩ ∧ slot < page.slots ∧
    page.get? slot = some ⟨some rid, data⟩

theorem ownEnds (keyed : p.Keyed) (txn : TxnId) (page : PageId) :
    Ends (fun frame q => q.Keyed ∧ q.resident.get? page = some frame ∧
        q.locks.access? txn page = some .exclusive) (fun _ => True)
      ((getPage txn page .exclusive).settled p) := by
  simp only [getPage, Activity.settledBind, Activity.settledLift]
  refine (lockEnds ⟨txn, page, .exclusive⟩ p).andThen (fun _ q asked => ?_) (fun _ _ => trivial)
  obtain ⟨granted, rfl⟩ := asked
  have owned := LockTable.accessRequest granted txn page
  simp only [and_self, if_true, ite_self] at owned
  have there : KeepsKeyed p {p with locks := (p.locks.request ⟨txn, page, .exclusive⟩).2} :=
    .same rfl
  refine ((fetchKeyed (there keyed) page).both (fetchKeeps page _)).mono (fun frame r fetched => ?_)
    (fun _ _ => trivial)
  obtain ⟨⟨here, present⟩, same⟩ := fetched
  exact ⟨here, present, same ▸ owned⟩

theorem writeTakes (keyed : p.Keyed) {frame : Frame} {copy : Page}
    (present : p.resident.get? page = some frame)
    (owned : p.locks.access? txn page = some .exclusive) (key : copy.id = frame.page.id) :
    Taken txn page ⟨frame.id, copy.markDirty txn⟩ (p.update ⟨frame.id, copy.markDirty txn⟩) := by
  have home : copy.id = page := key.trans (keyed page frame present)
  refine ⟨home, (pinnedWrite txn present home).2, ?_⟩
  rw [locksUpdate]
  exact owned

theorem insertedCarries {before after : Page} {data : Bytes} {slot : Nat}
    (inserted : before.Inserted data slot after) :
    Carries (after.markDirty txn) ⟨before.id, .ofNat slot⟩ data := by
  have key : (after.markDirty txn).id = before.id := inserted.sameId
  have used : after.isUsed slot = true := (inserted.used slot).trans (if_pos rfl)
  refine ⟨slot, by rw [key], ?_, ?_⟩
  · change slot < after.layout.slots
    rw [inserted.sameLayout]
    exact inserted.inRange
  · change after.get? slot = _
    rw [Page.get?, if_pos used, inserted.sameId, inserted.stored]

/- The page that a search comes to is one of the table. -/

theorem endsAnyhow {α : Type} (r : EStateM.Result Error Pool α) :
    Ends (fun _ _ => True) (fun _ => True) r := by
  cases r <;> trivial

theorem firstWithRoomHome (file : HeapFile) (numbers : List UInt32) (p : Pool) :
    Ends (fun page? _ => ∀ page ∈ page?, page.table = file.table) (fun _ => True)
      ((file.firstWithRoom txn numbers).settled p) := by
  induction numbers generalizing p with
  | nil => exact nofun
  | cons number rest ih =>
    simp only [HeapFile.firstWithRoom, Activity.settledBind, Activity.settledLift,
      Activity.settledIte]
    refine (endsAnyhow _).andThen (fun held q _ => ?_) (fun _ _ => trivial)
    refine (endsAnyhow _).andThen (fun frame r _ => ?_) (fun _ _ => trivial)
    split
    · exact fun page found => Option.some.inj found ▸ rfl
    · exact (endsAnyhow _).andThen (fun _ t _ => ih t) (fun _ _ => trivial)

theorem pageWithRoomHome (file : HeapFile) (p : Pool) :
    Ends (fun page _ => page.table = file.table) (fun _ => True)
      ((file.pageWithRoom txn).settled p) := by
  simp only [HeapFile.pageWithRoom, Activity.settledBind, Activity.settledLift]
  refine (endsAnyhow _).andThen (fun count q _ => ?_) (fun _ _ => trivial)
  refine (firstWithRoomHome file _ q).andThen (fun page? r found => ?_) (fun _ _ => trivial)
  cases page? with
  | some page => exact found page rfl
  | none =>
    exact Ends.inPart ((HeapFile.allocateEnds file r.storage).mono
      (fun _ _ made => made.1 ▸ rfl) (fun _ _ => trivial))

theorem insertWithinTakes (keyed : p.Keyed) (file : HeapFile) (data : Bytes) (tries : Nat) :
    Ends (fun x q => Taken txn x.1.page x.2 q ∧ x.1.page.table = file.table ∧
        Carries x.2.page x.1 data) (fun _ => True)
      ((file.insertWithin txn data tries).settled p) := by
  -- whatever the search has come to, the page it has led to is fetched under its own lock
  induction tries generalizing p with
  | zero => trivial
  | succ tries ih =>
    simp only [HeapFile.insertWithin, Activity.settledBind, Activity.settledIte,
      Activity.settledLift]
    have sought := ((keyedPieces (some txn)).pageWithRoom file).settled p
    refine (sought.both (pageWithRoomHome file p)).andThen (fun home q sought => ?_)
      (fun _ _ => trivial)
    obtain ⟨kept, own⟩ := sought
    refine (ownEnds (kept keyed) txn home).andThen (fun frame r got => ?_) (fun _ _ => trivial)
    obtain ⟨there, present, owned⟩ := got
    split
    · have made : Ends (fun x s => s = r ∧ frame.page.insert data = .ok x) (fun _ => True)
        (demand Pool (frame.page.insert data) r) := .demand (fun _ filled => ⟨rfl, filled⟩) trivial
      refine made.andThen (fun x s filled => ?_) (fun _ _ => trivial)
      obtain ⟨rfl, filled⟩ := filled
      obtain ⟨⟨place, number⟩, copy⟩ := x
      obtain ⟨slot, same, inserted⟩ := Page.insertSource filled
      cases same
      have key := there home frame present
      exact ⟨key ▸ writeTakes there present owned inserted.sameId, key ▸ own,
        insertedCarries inserted⟩
    · exact ih there

theorem clearTakes (keyed : p.Keyed) {rid : Rid} {frame : Frame}
    (present : p.resident.get? rid.page = some frame)
    (owned : p.locks.access? txn rid.page = some .exclusive) :
    Ends (fun x q => Taken txn rid.page x q) (fun _ => True)
      (HeapFile.clear txn rid frame p) := by
  have made : Ends (fun copy s => s = p ∧ frame.page.delete (some rid) = .ok copy) (fun _ => True)
    (demand Pool (frame.page.delete (some rid)) p) :=
      .demand (fun _ cleared => ⟨rfl, cleared⟩) trivial
  refine made.andThen (fun copy s cleared => ?_) (fun _ _ => trivial)
  obtain ⟨rfl, cleared⟩ := cleared
  obtain ⟨slot, _, deleted⟩ := Page.deleteSource cleared
  exact writeTakes keyed present owned deleted.sameId

theorem insertTakes (filed : p.Filed) (file : HeapFile) (txn : TxnId) (data : Bytes) :
    Ends (fun x q => Fixed txn x.2 q ∧ x.2.page.id = x.1.page ∧ x.1.page.table = file.table ∧
        Carries x.2.page x.1 data) (fun _ => True) ((file.insert txn data).settled p) := by
  have taken : Ends (fun x q => Taken txn x.1.page x.2 q ∧ x.1.page.table = file.table ∧
      Carries x.2.page x.1 data) (fun _ => True) ((file.insert txn data).settled p) := by
    simp only [HeapFile.insert, Activity.settledBind, Activity.settledLift]
    have asked : Ends (fun _ q => q = p) (fun _ => True) (demand Pool (file.checkWidth data) p) :=
      .demand (fun _ _ => rfl) trivial
    exact asked.andThen (fun _ q same => same ▸ insertWithinTakes filed.keyed file data _)
      (fun _ _ => trivial)
  have kept := ((filedPieces (some txn)).tableInsert file data).settled p
  refine (taken.both kept).mono (fun _ _ both => ?_) (fun _ _ => trivial)
  obtain ⟨⟨taken, own⟩, kept⟩ := both
  exact ⟨taken.fixed (kept filed).coherent, taken.key, own⟩

theorem deleteTakes (filed : p.Filed) (file : HeapFile) (txn : TxnId) (rid : Option Rid) :
    Ends (fun frame q => Fixed txn frame q ∧ rid.map (·.page) = some frame.page.id)
      (fun _ => True) ((file.delete txn rid).settled p) := by
  cases rid with
  | none => trivial
  | some place =>
    have taken : Ends (fun frame q => Taken txn place.page frame q) (fun _ => True)
        ((file.delete txn (some place)).settled p) := by
      simp only [HeapFile.delete, Activity.settledBind, Activity.settledLift]
      have asks {α : Type} (e : Except Misuse α) {q : Pool} (keyed : q.Keyed) :
          Ends (fun a r => r.Keyed ∧ e = .ok a) (fun _ => True) (demand Pool e q) :=
        .demand (fun _ same => ⟨keyed, same⟩) trivial
      refine (asks _ filed.keyed).andThen (fun rid a first => ?_) (fun _ _ => trivial)
      obtain ⟨first, same⟩ := first
      cases same
      refine (asks _ first).andThen (fun _ b second => ?_) (fun _ _ => trivial)
      refine (storageKeyed file.count b).andThen (fun count c counted => ?_) (fun _ _ => trivial)
      refine (asks _ (counted second.1)).andThen (fun _ d third => ?_) (fun _ _ => trivial)
      refine (ownEnds third.1 txn place.page).andThen (fun frame e got => ?_) (fun _ _ => trivial)
      exact clearTakes got.1 got.2.1 got.2.2
    have kept := ((filedPieces (some txn)).tableDelete file (some place)).settled p
    exact (taken.both kept).mono
      (fun _ _ both => ⟨both.1.fixed (both.2 filed).coherent, congrArg some both.1.key.symm⟩)
      (fun _ _ => trivial)

theorem insertAsTable (filed : p.Filed) {table : TableId} {file : HeapFile}
    (found : p.tables.get? table = some file) (txn : TxnId) (data : Bytes) :
    (insert txn table data).settled p =
      ((file.insert txn data).settled >>= fun x => pure x.1) p := by
  have taken := insertTakes filed file txn data
  simp only [insert, Activity.settledBind, Activity.settledLift]
  rw [okThen (tableFound found)]
  cases done : (file.insert txn data).settled p with
  | error cause q => rw [errorThen done, errorThen done]
  | ok x q =>
    rw [done] at taken
    rw [okThen done, okThen done, okThen (pinSame ⟨taken.1.resident, taken.1.marked⟩)]
    rfl

theorem deleteAsTable (filed : p.Filed) {file : HeapFile} {rid : Rid}
    (found : p.tables.get? rid.page.table = some file) (txn : TxnId) :
    (delete txn (some rid)).settled p =
      ((file.delete txn (some rid)).settled >>= fun _ => pure ()) p := by
  have taken := deleteTakes filed file txn (some rid)
  have asked : demand Pool (HeapFile.checkRid (some rid)) p = .ok rid p := rfl
  simp only [delete, Activity.settledBind, Activity.settledLift]
  rw [okThen asked, okThen (tableFound found)]
  cases done : (file.delete txn (some rid)).settled p with
  | error cause q => rw [errorThen done, errorThen done]
  | ok frame q =>
    rw [done] at taken
    rw [okThen done, okThen done, pinSame ⟨taken.1.resident, taken.1.marked⟩]
    rfl

/-- However a pool has been used before. A table that stores or clears a record in it leaves the
page in the cache, marked, and owned by its transaction alone; making the frame the one copy of
its page then succeeds and changes nothing. So an insert or a delete of the pool answers what its
table answers, and leaves what its table leaves, whether it succeeds or fails. -/
theorem pinningIsIdle {config : Config} {storage : Storage} {draws : List Nat}
    {h : History PoolUse Unit} {t : Traffic Pool PoolUse Unit}
    (run : unguarded.Run {ofConfig config storage with draws} h t) (txn : TxnId) :
    (∀ (file : HeapFile) data rid frame q,
      (file.insert txn data).settled t.state = .ok (rid, frame) q →
        Fixed txn frame q ∧ frame.page.id = rid.page ∧ pin txn frame q = .ok () q) ∧
    (∀ (file : HeapFile) rid frame q, (file.delete txn rid).settled t.state = .ok frame q →
        Fixed txn frame q ∧ rid.map (·.page) = some frame.page.id ∧
        pin txn frame q = .ok () q) ∧
    (∀ table file data, t.state.tables.get? table = some file →
      (insert txn table data).settled t.state =
        ((file.insert txn data).settled >>= fun x => pure x.1) t.state) ∧
    (∀ (rid : Rid) file, t.state.tables.get? rid.page.table = some file →
      (delete txn (some rid)).settled t.state =
        ((file.delete txn (some rid)).settled >>= fun _ => pure ()) t.state) := by
  have filed := reachedFiled run
  refine ⟨fun file data rid frame q done => ?_, fun file rid frame q done => ?_,
    fun table file data found => insertAsTable filed found txn data,
    fun rid file found => deleteAsTable filed found txn⟩
  · have taken := insertTakes filed file txn data
    rw [done] at taken
    obtain ⟨fixed, home, _⟩ := taken
    exact ⟨fixed, home, pinSame ⟨fixed.resident, fixed.marked⟩⟩
  · have taken := deleteTakes filed file txn rid
    rw [done] at taken
    obtain ⟨fixed, home⟩ := taken
    exact ⟨fixed, home, pinSame ⟨fixed.resident, fixed.marked⟩⟩

/- A second table over the same pages, and a cache with room for a single one. -/

def sampleShared : History PoolUse Unit × Traffic Pool PoolUse Unit :=
  unguarded.next (.call (.register {sampleFile with table := 2}))
    (unguarded.next (.call (.register sampleFile)) ([], ⟨sampleStart, []⟩))

theorem samplePinned : unguarded.Run sampleStart sampleShared.1 sampleShared.2 ∧
    ∃ frame q, (sampleFile.insert 1 [7, 0, 0, 0]).settled sampleShared.2.state =
        .ok (⟨⟨1, 0⟩, 0⟩, frame) q ∧
      q.resident.size = q.capacity ∧ Fixed 1 frame q ∧ pin 1 frame q = .ok () q := by
  have run : unguarded.Run sampleStart sampleShared.1 sampleShared.2 :=
    .alone unguarded (.alone unguarded .start (.call (.register sampleFile)) trivial rfl)
      (.call (.register {sampleFile with table := 2})) trivial rfl
  obtain ⟨frame, q, done, full⟩ : ∃ frame q,
      (sampleFile.insert 1 [7, 0, 0, 0]).settled sampleShared.2.state =
        .ok (⟨⟨1, 0⟩, 0⟩, frame) q ∧ q.resident.size = q.capacity := ⟨_, _, rfl, rfl⟩
  obtain ⟨inserts, -⟩ := pinningIsIdle run 1
  obtain ⟨fixed, -, idle⟩ := inserts sampleFile [7, 0, 0, 0] _ frame q done
  exact ⟨run, frame, q, done, full, fixed, idle⟩

end PagedHeap.Pool
