import PagedHeap.Proofs.PoolActivity

/-! Records in and out of tables. An insert or a delete that succeeds has changed one slot
in its last move but none, on a page that its transaction has to itself; what comes after
that finds nothing left to do. -/
namespace PagedHeap.Pool

variable {txn : TxnId}

def Pinned (txn : TxnId) (frame : Frame) (p : Pool) : Prop :=
  p.resident.get? frame.page.id = some frame ∧ frame.page.dirtiedBy = some txn

theorem writeOver {p : Pool} {page : PageId} {old new : Frame}
    (present : p.resident.get? page = some old) (same : new.id = old.id)
    (key : new.page.id = page) :
    p.update new = {p with resident := p.resident.insert page new} := by
  unfold update
  rw [key]
  simp only [present, same, if_true]

theorem pinnedWrite {p : Pool} (txn : TxnId) {page : PageId} {old : Frame} {copy : Page}
    (present : p.resident.get? page = some old) (key : copy.id = page) :
    p.update ⟨old.id, copy.markDirty txn⟩ =
        {p with resident := p.resident.insert page ⟨old.id, copy.markDirty txn⟩} ∧
      Pinned txn ⟨old.id, copy.markDirty txn⟩ (p.update ⟨old.id, copy.markDirty txn⟩) := by
  have home : (copy.markDirty txn).id = page := key
  have same : (Frame.mk old.id (copy.markDirty txn)).id = old.id := rfl
  have updated := writeOver (p := p) present same home
  refine ⟨updated, ?_, rfl⟩
  rw [updated, home]
  exact (KeyMap.getInsert ..).trans (if_pos rfl)

theorem pinSame {p : Pool} {frame : Frame} (pinned : Pinned txn frame p) :
    pin txn frame p = .ok () p := by
  obtain ⟨present, marked⟩ := pinned
  have latest : (p.latest frame).markDirty txn = frame.page := by
    have found : p.latest frame = frame.page := by
      unfold latest
      simp only [present, if_true]
    rw [found]
    exact congrArg (fun mark => {frame.page with dirtiedBy := mark}) marked.symm
  have updated : p.update frame = p := by
    rw [writeOver present rfl rfl, KeyMap.insertSame present]
  have placed : p.place frame = p := by
    unfold place
    simp only [present, if_true, updated]
  have resident : p.isResident frame.page.id = true := by
    simp only [isResident, KeyMap.contains, present, Option.isSome_some]
  -- the mark is there already, and so is the frame, so no step of the three moves anything
  change ((makeRoomFor ((p.latest frame).markDirty txn).id >>= fun _ =>
    modify (·.place {frame with page := (p.latest frame).markDirty txn}) : Instant Pool Unit)
      (p.update {frame with page := (p.latest frame).markDirty txn})) = _
  rw [latest]
  change ((makeRoomFor frame.page.id >>= fun _ => modify (·.place frame) : Instant Pool Unit)
    (p.update frame)) = _
  rw [updated]
  change ((if p.isResident frame.page.id then pure () else makeRoom : Instant Pool Unit) >>=
    fun _ => modify (·.place frame)) p = _
  rw [resident]
  change EStateM.Result.ok () (p.place frame) = _
  rw [placed]

theorem fillEnds {p : Pool} (housed : p.Housed) {page : PageId} {frame : Frame} (data : Bytes)
    (present : p.resident.get? page = some frame)
    (owns : p.locks.access? txn page = some .exclusive) :
    Ends (fun x q => Move (.fill txn x.1 data) p q ∧ Pinned txn x.2 q ∧ x.1.page = page) (· = p)
      (HeapFile.fill txn data frame p) := by
  change Ends _ _ ((demand Pool (frame.page.insert data) >>= fun x =>
    write {frame with page := x.2.markDirty txn} >>= fun _ =>
      pure (x.1, {frame with page := x.2.markDirty txn})) p)
  have made : Ends (fun x q => q = p ∧ frame.page.insert data = .ok x) (· = p)
    (demand Pool (frame.page.insert data) p) := .demand (fun _ filled => ⟨rfl, filled⟩) rfl
  refine made.andThen (fun x q filled => ?_) (fun _ failed => failed)
  obtain ⟨rfl, filled⟩ := filled
  obtain ⟨⟨home, number⟩, copy⟩ := x
  obtain ⟨slot, place, inserted⟩ := Page.insertSource filled
  obtain ⟨_, _, key, _⟩ := housed.keeps page frame present
  cases place
  rw [← key] at present owns
  obtain ⟨updated, pinned⟩ := pinnedWrite txn present inserted.sameId
  have changed : Move (.fill txn ⟨frame.page.id, .ofNat slot⟩ data) q _ :=
    .fill owns present filled
  rw [← updated] at changed
  exact ⟨changed, pinned, key⟩

theorem clearEnds {p : Pool} (housed : p.Housed) {rid : Rid} {frame : Frame}
    (present : p.resident.get? rid.page = some frame)
    (owns : p.locks.access? txn rid.page = some .exclusive) :
    Ends (fun x q => Move (.clear txn rid) p q ∧ Pinned txn x q) (· = p)
      (HeapFile.clear txn rid frame p) := by
  change Ends _ _ ((demand Pool (frame.page.delete (some rid)) >>= fun copy =>
    write {frame with page := copy.markDirty txn} >>= fun _ =>
      pure {frame with page := copy.markDirty txn}) p)
  have made : Ends (fun copy q => q = p ∧ frame.page.delete (some rid) = .ok copy) (· = p)
    (demand Pool (frame.page.delete (some rid)) p) := .demand (fun _ cleared => ⟨rfl, cleared⟩) rfl
  refine made.andThen (fun copy q cleared => ?_) (fun _ failed => failed)
  obtain ⟨rfl, cleared⟩ := cleared
  obtain ⟨slot, _, deleted⟩ := Page.deleteSource cleared
  obtain ⟨_, _, key, _⟩ := housed.keeps rid.page frame present
  obtain ⟨updated, pinned⟩ := pinnedWrite txn present (deleted.sameId.trans key)
  have changed : Move (.clear txn rid) q _ := .clear owns present cleared
  rw [← updated] at changed
  exact ⟨changed, pinned⟩

/- The walk to a page with room. -/

theorem insertWithinHolding {p : Pool} {file : HeapFile} {held : PageId → Prop} (housed : p.Housed)
    (known : p.Knows file) (holding : p.Holding txn held) (data : Bytes) (tries : Nat) :
    Reaches (Act.placesOn (some txn) file.table held) (some txn)
      (fun m x q => Move (.fill txn x.1 data) m q ∧ Pinned txn x.2 q ∧
        x.1.page.table = file.table)
      (file.insertWithin txn data tries p) p := by
  -- a page that was filled while one waited for its lock sends one on the walk again
  induction tries generalizing p with
  | zero => exact Progress.meetsEnded (show Ends _ _ (.error _ p) from Moves.refl)
  | succ tries ih =>
    refine (pageWithRoomHolding housed known holding).bindHolding housed holding
      fun home q there grew still own => ?_
    have got : Reaches (Act.placesOn (some txn) file.table held) _ _ _ q :=
      (own ▸ getPageReaches there txn home .exclusive).widen fun _ => Act.readsPlacesOn
    refine got.bindHolding there still fun frame r here further kept got => ?_
    have owns : r.locks.access? txn home = some .exclusive := by
      rw [got.2]
      split <;> rfl
    change Reaches _ _ _ ((if frame.page.hasRoom then (monadLift (HeapFile.fill txn data frame) :
      Activity Pool (Rid × Frame)) else file.insertWithin txn data tries) r) r
    split
    · refine .instant ((fillEnds here data got.1 owns).mono (fun x t filled => ?_)
        (fun t same => same ▸ .refl))
      exact ⟨r, .refl, filled.1, filled.2.1, (congrArg PageId.table filled.2.2).trans own⟩
    · exact ih here (known.later (grew.trans further)) kept

theorem insertHolding {p : Pool} {held : PageId → Prop} (housed : p.Housed)
    (holding : p.Holding txn held) (table : TableId) (data : Bytes) :
    Reaches (Act.placesOn (some txn) table held) (some txn)
      (fun m rid q => Move (.fill txn rid data) m q ∧ rid.page.table = table)
      (insert txn table data p) p := by
  have found : Reaches (Act.placesOn (some txn) table held) (some txn)
      (Merely fun file q => q.Knows file ∧ file.table = table) (.ended (Pool.table table p)) p := by
    refine .lift ((tableEnds p table).mono (fun file q found => ?_) (fun q lost => lost.1 ▸ .refl))
    obtain ⟨rfl, found⟩ := found
    have name := housed.named table file found
    subst name
    exact ⟨.refl, found, rfl⟩
  refine found.bindHolding housed holding fun file q there grew still named => ?_
  obtain ⟨known, rfl⟩ := named
  have placed :
      Reaches (Act.placesOn (some txn) file.table held) (some txn) _ (file.insert txn data q) q :=
    demandReaches.bindHolding there still fun _ r here further kept _ =>
      insertWithinHolding here (known.later further) kept data UInt32.size
  refine placed.close fun m x r filled => ⟨x.1, ?_, filled.1, filled.2.2⟩
  change Progress.andThen (fun _ => (pure x.1 : Activity Pool Rid)) (.ended (pin txn x.2 r)) = _
  rw [pinSame filled.2.1]
  rfl

theorem insertWithinReaches {p : Pool} {file : HeapFile} (housed : p.Housed)
    (known : p.Knows file) (data : Bytes) (tries : Nat) :
    Reaches (Act.seeksOn (some txn) file.table) (some txn)
      (fun m x q => Move (.fill txn x.1 data) m q ∧ Pinned txn x.2 q ∧
        x.1.page.table = file.table)
      (file.insertWithin txn data tries p) p :=
  (insertWithinHolding housed known (.none txn p) data tries).widen fun _ => And.left

theorem insertReaches {p : Pool} (housed : p.Housed) (table : TableId) (data : Bytes) :
    Reaches (Act.seeksOn (some txn) table) (some txn)
      (fun m rid q => Move (.fill txn rid data) m q ∧ rid.page.table = table)
      (insert txn table data p) p :=
  (insertHolding housed (.none txn p) table data).widen fun _ => And.left

theorem deleteAtReaches {p : Pool} (housed : p.Housed) (rid : Rid) :
    Reaches (Act.readsOn (some txn) rid.page.table) (some txn)
      (fun m _ q => Move (.clear txn rid) m q) (delete txn (some rid) p) p := by
  have found : Reaches (Act.readsOn (some txn) rid.page.table) (some txn) (Merely fun _ _ => True)
      (.ended (Pool.table rid.page.table p)) p :=
    .lift ((tableEnds p rid.page.table).mono (fun _ _ found => ⟨found.1 ▸ .refl, trivial⟩)
      (fun _ lost => lost.1 ▸ .refl))
  change Reaches _ _ _ (Progress.andThen (fun file => (file.delete txn (some rid) >>=
    fun frame => (monadLift (pin txn frame) : Activity Pool Unit) : Activity Pool Unit))
      (.ended (Pool.table rid.page.table p))) p
  refine found.bind housed fun file q there _ _ => ?_
  have counted {a : Pool} : Reaches (Act.readsOn (some txn) rid.page.table) _ _ _ a :=
    (countReaches (some txn) file a).widen fun _ => Act.looksReadsOn
  have cleared : Reaches (Act.readsOn (some txn) rid.page.table) (some txn)
      (fun m x q => Move (.clear txn rid) m q ∧ Pinned txn x q)
      (file.delete txn (some rid) q) q := by
    refine demandReaches.bind there fun place a first _ same => ?_
    obtain rfl : rid = place := Except.ok.inj same
    refine demandReaches.bind first fun _ b here _ _ => counted.bind here fun count e near _ _ =>
      demandReaches.bind near fun _ c close _ _ => ?_
    refine (getPageReaches close txn rid.page .exclusive).bind close fun frame d home _ got => ?_
    have owns : d.locks.access? txn rid.page = some .exclusive := by
      rw [got.2]
      split <;> rfl
    exact .instant ((clearEnds home got.1 owns).mono (fun x t cleared => ⟨d, .refl, cleared⟩)
      (fun t same => same ▸ .refl))
  refine cleared.close fun m x r done => ⟨(), ?_, done.1⟩
  change Progress.ended (pin txn x r) = _
  rw [pinSame done.2]

theorem deleteReaches {p : Pool} (housed : p.Housed) (rid : Option Rid) :
    Reaches (Act.seeks (some txn)) (some txn)
      (fun m _ q => ∃ place, rid = some place ∧ Move (.clear txn place) m q)
      (delete txn rid p) p := by
  cases rid with
  | none => exact Progress.meetsEnded (show Ends _ _ (.error _ p) from Moves.refl)
  | some place =>
    exact (deleteAtReaches housed place).mono (fun _ own => Act.readsSeeks own.1)
      fun _ _ _ cleared => ⟨place, rfl, cleared⟩

end PagedHeap.Pool
