import PagedHeap.Proofs.Concur
import PagedHeap.Proofs.Placements
import PagedHeap.Proofs.TwinPools

/-! Work on two pools that only their caches tell apart, as far as the tables of a scope are
concerned. On those tables it comes to the same on both, and leaves them as much alike as they
were, unless one of the caches has no place for a page. -/
namespace PagedHeap

namespace Pool

variable {α β : Type} {scope : Scope} {p q m : Pool} {page : PageId} {file : HeapFile}
  {txn : TxnId} {f g : Frame}

/- Getting pages. -/

def Inside (p : Pool) (page : PageId) : Prop :=
  ∃ file, p.tables.get? page.table = some file ∧ page.number.toNat < p.storage.pages file.volume

theorem Inside.later (inside : p.Inside page) (grew : Grew p q) : q.Inside page := by
  obtain ⟨file, found, bound⟩ := inside
  exact ⟨file, grew.tables _ _ found, Nat.lt_of_lt_of_le bound (grew.storage.grown _)⟩

structure Twice (scope : Scope) (page : PageId) (f : Frame) (p : Pool) (g : Frame)
    (q : Pool) : Prop where
  twins : Twins scope p q
  held : scope.Holds page.table
  mine : p.resident.get? page = some f
  theirs : q.resident.get? page = some g

theorem Twice.same (shown : Twice scope page f p g q) : g.page = f.page :=
  (shown.twins.samePage shown.held shown.mine shown.theirs).symm

theorem Manages.concur {done done' : α → Pool → Prop} {alike : Pool → Pool → Prop}
    {same : α → Pool → α → Pool → Prop} {r r' : EStateM.Result Error Pool α}
    (mine : Manages done p r) (theirs : Manages done' q r')
    (both : ∀ a s b t, done a s → done' b t → same a s b t) : Concur alike same r r' := by
  cases r with
  | error e s => exact .left (mine.1 ▸ rfl)
  | ok a s =>
    cases r' with
    | error f t => exact .right (theirs.1 ▸ rfl)
    | ok b t => exact both a s b t mine theirs

theorem fetchConcurs (twins : Twins scope p q) (held : scope.Holds page.table)
    (inside : p.Inside page) :
    Concur (Twins scope) (Twice scope page) (fetch page p) (fetch page q) := by
  obtain ⟨file, found, bound⟩ := inside
  obtain ⟨image, seen⟩ := viewPresent found bound
  have mine := fetchManages twins.left.toHoused twins.left.apart twins.left.smooth twins.left.room
    found seen
  have theirs := fetchManages twins.right.toHoused twins.right.apart twins.right.smooth
    twins.right.room
    (twins.known found) ((twins.alike.views page held).trans seen)
  exact mine.concur theirs fun f p' g q' here there =>
    ⟨twins.looked here.1 there.1, held, here.2, there.2⟩

theorem lockConcurs (twins : Twins scope p q) (wanted : Lock)
    (held : scope.Holds wanted.page.table) :
    Concur (Twins scope) (fun _ p _ q => Twins scope p q) ((lock wanted).settled p)
      ((lock wanted).settled q) := by
  obtain ⟨verdict, seen⟩ := scope.request twins.alike.locks held
  rw [lockSettled, lockSettled, verdict]
  split
  · rename_i granted
    have taken : Act.orderly (.take wanted) ∧ Act.still (.take wanted) := ⟨trivial, trivial⟩
    exact twins.relocked seen (twins.left.moveStill taken.1 taken.2 (.take granted))
      (twins.right.moveStill taken.1 taken.2 (.take (verdict.trans granted)))
  · exact .inr (.inr ⟨rfl, twins⟩)

theorem getPageConcurs (twins : Twins scope p q) (held : scope.Holds page.table) (txn : TxnId)
    (access : Access) (inside : p.Inside page) :
    Concur (Twins scope) (fun f p' g q' => Twice scope page f p' g q' ∧ Grew p p' ∧
        Got txn page access p.locks f p')
      ((getPage txn page access).settled p) ((getPage txn page access).settled q) := by
  have facts := (getPageReaches twins.left.toHoused txn page access).settled twins.left.toHoused
  have concur : Concur (Twins scope) (Twice scope page) ((getPage txn page access).settled p)
      ((getPage txn page access).settled q) := by
    unfold getPage
    simp only [Activity.settledBind]
    refine (lockConcurs twins ⟨txn, page, access⟩ held).andThen fun _ m _ n made there =>
      fetchConcurs there held (inside.later ?_)
    rw [lockSettled] at made
    split at made <;> cases made
    exact .ofTables rfl rfl (.refl _)
  refine (concur.also facts).mono fun f p' g q' both => ?_
  obtain ⟨shown, m, moves, rfl, got⟩ := both
  exact ⟨shown, moves.grew, got⟩

/- Places for records. -/

theorem countConcurs (twins : Twins scope p q) (held : scope.Holds file.table)
    (known : p.Knows file) :
    Concur (Twins scope) (fun n p' k q' => Twins scope p' q' ∧ n = k ∧ Grew p p' ∧
        n = .ofNat (p'.storage.pages file.volume))
      (onStorage file.count p) (onStorage file.count q) := by
  have counted {p : Pool} (able : p.Able) (known : p.Knows file) :
      Ends (fun n p' => Moves Act.looks p p' ∧ n = .ofNat (p'.storage.pages file.volume))
        (fun _ => False) (onStorage file.count p) :=
    Ends.inPart ((Storage.countSpared (able.smooth.calls .count _ _ known)).mono
      (fun _ _ seen => ⟨.aside trivial seen.1,
        seen.2.trans (congrArg UInt32.ofNat (seen.1.pages _).symm)⟩) (fun _ none => none))
  refine .sure (counted twins.left known) (counted twins.right (twins.known known))
    fun n p' k q' here there => ?_
  have later := twins.looked here.1 there.1
  refine ⟨later, ?_, here.1.grew, here.2⟩
  rw [here.2, there.2, later.alike.pages _ _ held (known.later here.1.grew)]

theorem firstWithRoomConcurs (twins : Twins scope p q) (held : scope.Holds file.table)
    (numbers : List UInt32) (inside : ∀ number ∈ numbers, p.Inside ⟨file.table, number⟩) :
    Concur (Twins scope) (fun page? p' other? q' => Twins scope p' q' ∧ page? = other? ∧
        ∀ page ∈ page?, p'.Inside page)
      ((file.firstWithRoom txn numbers).settled p)
      ((file.firstWithRoom txn numbers).settled q) := by
  induction numbers generalizing p q with
  | nil => exact ⟨twins, rfl, nofun⟩
  | cons number rest ih =>
    simp only [HeapFile.firstWithRoom, Activity.settledBind, Activity.settledLift,
      Activity.settledIte]
    have same : q.locks.access? txn ⟨file.table, number⟩ =
        p.locks.access? txn ⟨file.table, number⟩ := twins.access held txn
    have asked : Concur (Twins scope) (fun before p' before' q' => p' = p ∧ q' = q ∧
        before = before' ∧ before = p.locks.holds txn ⟨file.table, number⟩)
        (holds txn ⟨file.table, number⟩ p) (holds txn ⟨file.table, number⟩ q) :=
      ⟨rfl, rfl, congrArg Option.isSome same.symm, rfl⟩
    refine asked.andThen fun before a _ b _ told => ?_
    obtain ⟨rfl, rfl, rfl, told⟩ := told
    have here := inside number List.mem_cons_self
    refine (getPageConcurs twins held txn .shared here).andThen fun f c g d _ got => ?_
    obtain ⟨shown, grew, got⟩ := got
    rw [shown.same]
    split
    · exact ⟨shown.twins, rfl, fun page found => Option.some.inj found ▸ here.later grew⟩
    · have later {c : Pool} (further : Grew a c) :
          ∀ number ∈ rest, c.Inside ⟨file.table, number⟩ := fun number there =>
        (inside number (List.mem_cons_of_mem _ there)).later further
      have probed : Concur (Twins scope) (fun _ c' _ d' => Twins scope c' d' ∧ Grew a c')
          (releaseProbe before txn ⟨file.table, number⟩ c)
          (releaseProbe before txn ⟨file.table, number⟩ d) := by
        cases before with
        | true => exact ⟨shown.twins, grew⟩
        | false =>
          have missing : a.locks.access? txn ⟨file.table, number⟩ = none := by
            simpa [LockTable.holds] using told.symm
          have shared : c.locks.access? txn ⟨file.table, number⟩ = some .shared := by
            rw [got.2, missing]
            rfl
          have shared' : d.locks.access? txn ⟨file.table, number⟩ = some .shared :=
            (shown.twins.access held txn).trans shared
          have given : Act.orderly (.unprobe txn ⟨file.table, number⟩) ∧
              Act.still (.unprobe txn ⟨file.table, number⟩) := ⟨trivial, trivial⟩
          exact ⟨shown.twins.relocked (scope.release shown.twins.alike.locks held txn)
            (shown.twins.left.moveStill given.1 given.2 (.unprobe shared))
            (shown.twins.right.moveStill given.1 given.2 (.unprobe shared')),
            grew.trans (.ofTables rfl rfl (.refl _))⟩
      exact probed.andThen fun _ c' _ d' _ after => ih after.1 (later after.2)

theorem roomBefore {work : Instant Pool α} {next : α → Instant Pool β}
    (room : Ends (fun _ => Room) Room ((work >>= next) p))
    (grows : ∀ a m, work p = .ok a m → Ends (fun _ t => Grew m t) (Grew m) (next a m)) :
    Ends (fun _ => Room) Room (work p) := by
  cases made : work p with
  | error e m =>
    rw [errorThen made] at room
    exact room
  | ok a m =>
    rw [okThen made] at room
    have both := room.both (grows a m made)
    cases ended : next a m <;> rw [ended] at both <;> exact both.1.before both.2

theorem Able.extended (able : p.Able) (known : p.Knows file) {storage : Storage}
    (enlarged : p.storage.Enlarged storage file.volume)
    (few : storage.pages file.volume < UInt32.size) : Able {p with storage} := by
  obtain ⟨_, extended, _⟩ := enlarged.fresh
    (able.sized _ _ known ▸ file.layout.sizePositive) (able.room _ _ known)
  have grown : Act.orderly (.extend file.table) := trivial
  refine able.move grown (fun other its there => ?_) (.extend known enlarged)
  by_cases own : file.table = other
  · subst own
    cases known.symm.trans there
    exact few
  · change storage.pages its.volume < UInt32.size
    rw [able.apart.pagesExtended known extended there, if_neg own]
    exact able.room other its there

theorem allocateConcurs (twins : Twins scope p q) (held : scope.Holds file.table)
    (known : p.Knows file) (room : Ends (fun _ => Room) Room (onStorage file.allocate p)) :
    Concur (Twins scope) (fun home p' other q' => Twins scope p' q' ∧ home = other ∧ p'.Inside home)
      (onStorage file.allocate p) (onStorage file.allocate q) := by
  have runs {p : Pool} {number : UInt32} {storage : Storage}
      (done : Storage.allocate file.volume p.storage = .ok number storage) :
      onStorage file.allocate p = .ok ⟨file.table, number⟩ {p with storage} := by
    change storagePart.outcome p ((Storage.allocate file.volume >>= fun number =>
      pure (PageId.mk file.table number)) p.storage) = _
    rw [okThen done]
    rfl
  have known' : q.Knows file := twins.known known
  have positive : 0 < p.storage.pageSize file.volume :=
    twins.left.sized _ _ known ▸ file.layout.sizePositive
  have size : q.storage.pageSize file.volume = p.storage.pageSize file.volume :=
    (twins.right.sized _ _ known').trans (twins.left.sized _ _ known).symm
  have count := twins.alike.pages _ _ held known
  have few : p.storage.pages file.volume < UInt32.size := twins.left.room _ _ known
  obtain ⟨_, s, done, rfl, enlarged⟩ :=
    Storage.allocateSpared (twins.left.smooth.calls .allocate _ _ known)
  obtain ⟨_, t, done', rfl, enlarged'⟩ :=
    Storage.allocateSpared (twins.right.smooth.calls .allocate _ _ known')
  obtain ⟨blank, extended, empty⟩ := enlarged.fresh positive few
  obtain ⟨blank', extended', empty'⟩ := enlarged'.fresh (size ▸ positive) (count ▸ few)
  cases empty (twins.left.smooth.calls .fill _ _ known)
  cases empty' (twins.right.smooth.calls .fill _ _ known')
  rw [size] at extended'
  rw [runs done] at room ⊢
  rw [runs done']
  have fits : s.pages file.volume < UInt32.size := room _ _ known
  have fits' : t.pages file.volume < UInt32.size := by
    rw [extended'.pages, count, ← extended.pages]
    exact fits
  refine ⟨⟨twins.left.extended known enlarged fits, twins.right.extended known' enlarged' fits',
    twins.alike.extended twins.left twins.right held known extended extended'⟩,
    congrArg (fun number => PageId.mk file.table (.ofNat number)) count.symm, file, known, ?_⟩
  change (UInt32.ofNat (p.storage.pages file.volume)).toNat < s.pages file.volume
  rw [extended.pages, UInt32.toNat_ofNat_of_lt' few]
  exact Nat.lt_succ_self _

theorem pageWithRoomConcurs (twins : Twins scope p q) (held : scope.Holds file.table)
    (known : p.Knows file)
    (room : Ends (fun _ => Room) Room ((file.pageWithRoom txn).settled p)) :
    Concur (Twins scope) (fun home p' other q' => Twins scope p' q' ∧ home = other ∧ p'.Inside home)
      ((file.pageWithRoom txn).settled p) ((file.pageWithRoom txn).settled q) := by
  unfold HeapFile.pageWithRoom at room ⊢
  rw [Activity.settledBind, Activity.settledLift] at room ⊢
  refine (countConcurs twins held known).andThen fun count a _ b made counted => ?_
  obtain ⟨there, rfl, grew, number⟩ := counted
  replace room := room.rest made
  rw [Activity.settledBind] at room ⊢
  have known := known.later grew
  have inside : ∀ number ∈ (List.range count.toNat).map UInt32.ofNat,
      a.Inside ⟨file.table, number⟩ := by
    rintro _ listed
    obtain ⟨i, below, rfl⟩ := List.mem_map.mp listed
    refine ⟨file, known, ?_⟩
    rw [List.mem_range, number, UInt32.toNat_ofNat_of_lt' (there.left.room _ _ known)] at below
    exact Nat.lt_of_le_of_lt (by rw [UInt32.toNat_ofNat']; exact Nat.mod_le _ _) below
  generalize (List.range count.toNat).map UInt32.ofNat = numbers at inside room ⊢
  refine (firstWithRoomConcurs there held numbers inside).andThen fun page? c _ d made found => ?_
  obtain ⟨here, rfl, found⟩ := found
  replace room := room.rest made
  cases page? with
  | some page => exact ⟨here, rfl, found page rfl⟩
  | none =>
    have looked : Ends _ _ ((file.firstWithRoom txn numbers).settled a) :=
      (firstWithRoomReaches there.left.toHoused numbers).settled there.left.toHoused
    rw [made] at looked
    obtain ⟨_, moves, rfl, _⟩ := looked
    exact allocateConcurs here held (known.later moves.grew) room

/- Changing pages. -/

theorem Twice.changed (twice : Twice scope page f p g q) {copy : Page} (key : copy.id = page)
    (mine : Able (p.update ⟨f.id, copy.markDirty txn⟩))
    (theirs : Able (q.update ⟨g.id, copy.markDirty txn⟩)) :
    Twins scope (p.update ⟨f.id, copy.markDirty txn⟩) (q.update ⟨g.id, copy.markDirty txn⟩) := by
  refine ⟨mine, theirs, ?_⟩
  rw [(pinnedWrite txn twice.mine key).1, (pinnedWrite txn twice.theirs key).1]
  exact twice.twins.alike.put rfl

theorem fillRuns (data : Bytes) (f : Frame) (p : Pool) :
    HeapFile.fill txn data f p = match f.page.insert data with
      | .ok x => .ok (x.1, ⟨f.id, x.2.markDirty txn⟩) (p.update ⟨f.id, x.2.markDirty txn⟩)
      | .error cause => .error (.invalid cause) p := by
  unfold HeapFile.fill
  cases f.page.insert data <;> rfl

theorem fillConcurs (twice : Twice scope page f p g q) (data : Bytes)
    (owns : p.locks.access? txn page = some .exclusive) :
    Concur (Twins scope) (fun x p' y q' => Twins scope p' q' ∧ x.1 = y.1 ∧ Pinned txn x.2 p' ∧
        Pinned txn y.2 q')
      (HeapFile.fill txn data f p) (HeapFile.fill txn data g q) := by
  have mine := fillEnds twice.twins.left.toHoused data twice.mine owns
  have theirs := fillEnds twice.twins.right.toHoused data twice.theirs
    ((twice.twins.access twice.held txn).trans owns)
  obtain ⟨_, _, key, _⟩ := twice.twins.left.keeps page f twice.mine
  rw [fillRuns] at mine theirs ⊢
  rw [fillRuns]
  rw [twice.same] at theirs ⊢
  cases filled : f.page.insert data with
  | error cause => exact .inr (.inr ⟨rfl, twice.twins⟩)
  | ok x =>
    rw [filled] at mine theirs
    obtain ⟨slot, _, inserted⟩ : ∃ slot, _ ∧ Page.Inserted f.page data slot x.2 :=
      Page.insertSource filled
    have kind : Act.orderly (.fill txn x.1 data) ∧ Act.still (.fill txn x.1 data) :=
      ⟨trivial, trivial⟩
    exact ⟨twice.changed (inserted.sameId.trans key)
      (twice.twins.left.moveStill kind.1 kind.2 mine.1)
      (twice.twins.right.moveStill kind.1 kind.2 theirs.1), rfl, mine.2.1, theirs.2.1⟩

theorem clearRuns (rid : Rid) (f : Frame) (p : Pool) :
    HeapFile.clear txn rid f p = match f.page.delete (some rid) with
      | .ok copy => .ok ⟨f.id, copy.markDirty txn⟩ (p.update ⟨f.id, copy.markDirty txn⟩)
      | .error cause => .error (.invalid cause) p := by
  unfold HeapFile.clear
  cases f.page.delete (some rid) <;> rfl

theorem clearConcurs {rid : Rid} (twice : Twice scope rid.page f p g q)
    (owns : p.locks.access? txn rid.page = some .exclusive) :
    Concur (Twins scope) (fun x p' y q' => Twins scope p' q' ∧ Pinned txn x p' ∧ Pinned txn y q')
      (HeapFile.clear txn rid f p) (HeapFile.clear txn rid g q) := by
  have mine := clearEnds twice.twins.left.toHoused twice.mine owns
  have theirs := clearEnds twice.twins.right.toHoused twice.theirs
    ((twice.twins.access twice.held txn).trans owns)
  obtain ⟨_, _, key, _⟩ := twice.twins.left.keeps rid.page f twice.mine
  rw [clearRuns] at mine theirs ⊢
  rw [clearRuns]
  rw [twice.same] at theirs ⊢
  cases cleared : f.page.delete (some rid) with
  | error cause => exact .inr (.inr ⟨rfl, twice.twins⟩)
  | ok copy =>
    rw [cleared] at mine theirs
    obtain ⟨slot, _, deleted⟩ := Page.deleteSource cleared
    have kind : Act.orderly (.clear txn rid) ∧ Act.still (.clear txn rid) := ⟨trivial, trivial⟩
    exact ⟨twice.changed (deleted.sameId.trans key)
      (twice.twins.left.moveStill kind.1 kind.2 mine.1)
      (twice.twins.right.moveStill kind.1 kind.2 theirs.1), mine.2, theirs.2⟩

theorem Got.owns {before : LockTable} (got : Got txn page .exclusive before f p) :
    p.locks.access? txn page = some .exclusive := by
  rw [got.2]
  split <;> rfl

theorem insertWithinConcurs (twins : Twins scope p q) (held : scope.Holds file.table)
    (known : p.Knows file) (data : Bytes) (tries : Nat)
    (room : Ends (fun _ => Room) Room ((file.insertWithin txn data tries).settled p)) :
    Concur (Twins scope) (fun x p' y q' => Twins scope p' q' ∧ x.1 = y.1 ∧ Pinned txn x.2 p' ∧
        Pinned txn y.2 q')
      ((file.insertWithin txn data tries).settled p)
      ((file.insertWithin txn data tries).settled q) := by
  induction tries generalizing p q with
  | zero => exact .inr (.inr ⟨rfl, twins⟩)
  | succ tries ih =>
    have sought : Ends _ _ ((file.pageWithRoom txn).settled p) :=
      (pageWithRoomReaches twins.left.toHoused known).settled twins.left.toHoused
    simp only [HeapFile.insertWithin, Activity.settledBind, Activity.settledLift,
      Activity.settledIte] at room ⊢
    -- whatever comes after the page was found makes tables no shorter
    have first := roomBefore room fun home m made => by
      rw [made] at sought
      obtain ⟨_, moves, rfl, _⟩ := sought
      have there := twins.left.toHoused.moves moves
      have got := (getPageReaches there txn home .exclusive).settled there
      refine got.andThen (fun frame n here => ?_) (fun _ lost => lost.grew)
      obtain ⟨_, later, rfl, got⟩ := here
      have here := there.moves later
      have grew := moves.grew.trans later.grew
      split
      · exact (fillEnds here data got.1 got.owns).mono
          (fun _ _ filled => later.grew.trans filled.1.grew) (fun _ same => same ▸ later.grew)
      · refine ((insertWithinReaches here (known.later grew) data tries).settled here).mono
          (fun _ _ ended => ?_) (fun _ lost => later.grew.trans lost.grew)
        obtain ⟨_, further, filled, _⟩ := ended
        exact later.grew.trans (further.grew.trans filled.grew)
    refine (pageWithRoomConcurs twins held known first).andThen fun home a _ b made found => ?_
    obtain ⟨there, rfl, inside⟩ := found
    replace room := room.rest made
    rw [made] at sought
    obtain ⟨_, moves, rfl, own⟩ := sought
    have homely : scope.Holds home.table := own ▸ held
    refine (getPageConcurs there homely txn .exclusive inside).andThen fun f c g d made got => ?_
    obtain ⟨twice, grew, got⟩ := got
    replace room := room.rest made
    rw [twice.same]
    split
    · exact fillConcurs twice data got.owns
    · rename_i full
      rw [if_neg full] at room
      exact ih twice.twins (known.later (moves.grew.trans grew)) room

theorem tableConcurs (twins : Twins scope p q) (id : TableId) :
    Concur (Twins scope) (fun file p' other q' => p = p' ∧ q = q' ∧ file = other ∧
        p.tables.get? id = some file ∧ file.table = id)
      (table id p) (table id q) := by
  cases found : p.tables.get? id with
  | some file =>
    rw [tableFound found, tableFound (twins.known found)]
    exact ⟨rfl, rfl, rfl, rfl, twins.left.named id file found⟩
  | none =>
    rw [tableMissing found, tableMissing (by rw [twins.alike.tables, found])]
    exact .inr (.inr ⟨rfl, twins⟩)

theorem insertConcurs (twins : Twins scope p q) {table : TableId} (held : scope.Holds table)
    (data : Bytes) (room : Ends (fun _ => Room) Room ((insert txn table data).settled p)) :
    Concur (Twins scope) (fun rid p' other q' => Twins scope p' q' ∧ rid = other)
      ((insert txn table data).settled p) ((insert txn table data).settled q) := by
  simp only [Pool.insert, HeapFile.insert, Activity.settledBind, Activity.settledLift] at room ⊢
  refine (tableConcurs twins table).andThen fun file _ _ _ _ looked => ?_
  obtain ⟨rfl, rfl, rfl, found, name⟩ := looked
  replace room := room.rest (tableFound found)
  rw [← name] at held
  have known : p.Knows file := by rw [Knows, name]; exact found
  cases checked : file.checkWidth data with
  | error cause => exact .inr (.inr ⟨rfl, twins⟩)
  | ok _ =>
    have placed : Ends (fun x m => Pinned txn x.2 m) (fun _ => True)
        ((file.insertWithin txn data UInt32.size).settled p) :=
      ((insertWithinReaches twins.left.toHoused known data UInt32.size).settled
        twins.left.toHoused).mono (fun _ _ ended => by
          obtain ⟨_, _, _, pinned, _⟩ := ended
          exact pinned) fun _ _ => trivial
    rw [checked] at room
    change Ends _ _ (((file.insertWithin txn data UInt32.size).settled >>= fun x =>
      pin txn x.2 >>= fun _ => (pure x.1 : Instant Pool Rid)) p) at room
    change Concur _ _ (((file.insertWithin txn data UInt32.size).settled >>= fun x =>
      pin txn x.2 >>= fun _ => (pure x.1 : Instant Pool Rid)) p)
      (((file.insertWithin txn data UInt32.size).settled >>= fun x =>
        pin txn x.2 >>= fun _ => (pure x.1 : Instant Pool Rid)) q)
    have first := roomBefore room fun x m made => by
      rw [made] at placed
      rw [okThen (pinSame placed)]
      exact Grew.refl m
    refine (insertWithinConcurs twins held known data UInt32.size first).andThen
      fun x a y b _ pinned => ?_
    obtain ⟨there, same, mine, theirs⟩ := pinned
    rw [okThen (pinSame mine), okThen (pinSame theirs)]
    exact ⟨there, same⟩

theorem Able.inside (able : p.Able) (known : p.Knows file) {number : UInt32}
    (before : ¬ UInt32.ofNat (p.storage.pages file.volume) ≤ number) :
    p.Inside ⟨file.table, number⟩ := by
  rw [UInt32.le_iff_toNat_le, UInt32.toNat_ofNat_of_lt' (able.room _ _ known)] at before
  exact ⟨file, known, Nat.lt_of_not_le before⟩

theorem deleteConcurs (twins : Twins scope p q) {rid : Rid} (held : scope.Holds rid.page.table) :
    Concur (Twins scope) (fun _ p' _ q' => Twins scope p' q') ((delete txn (some rid)).settled p)
      ((delete txn (some rid)).settled q) := by
  simp only [Pool.delete, Activity.settledBind, Activity.settledLift]
  refine .asked twins fun place same => ?_
  obtain rfl : rid = place := Except.ok.inj same
  refine (tableConcurs twins _).andThen fun file _ _ _ _ looked => ?_
  obtain ⟨rfl, rfl, rfl, found, name⟩ := looked
  have known : p.Knows file := by rw [Knows, name]; exact found
  have cleared : Concur (Twins scope)
      (fun x p' y q' => Twins scope p' q' ∧ Pinned txn x p' ∧ Pinned txn y q')
      ((file.delete txn (some rid)).settled p) ((file.delete txn (some rid)).settled q) := by
    simp only [HeapFile.delete, Activity.settledBind, Activity.settledLift]
    refine .asked twins fun place same => ?_
    obtain rfl : rid = place := Except.ok.inj same
    refine .asked twins fun _ _ => ?_
    refine (countConcurs twins (name ▸ held) known).andThen fun count a _ b _ counted => ?_
    obtain ⟨there, rfl, grew, rfl⟩ := counted
    refine .asked there fun _ checked => ?_
    have inside : a.Inside rid.page := by
      unfold HeapFile.checkEnd at checked
      split at checked
      · cases checked
      · rename_i before
        have inside := there.left.inside (known.later grew) before
        rwa [name] at inside
    exact (getPageConcurs there held txn .exclusive inside).andThen fun f c g d _ got =>
      clearConcurs got.1 got.2.2.owns
  refine cleared.andThen fun x a y b _ pinned => ?_
  obtain ⟨there, mine, theirs⟩ := pinned
  rw [pinSame mine, pinSame theirs]
  exact there

/- Lists. -/

theorem visitConcurs (twins : Twins scope p q) (held : scope.Holds file.table)
    (known : p.Knows file) (who : Option TxnId) (number : UInt32) :
    Concur (Twins scope) (fun frame? p' other? q' => Twins scope p' q' ∧ p'.Knows file ∧
        frame?.map (·.page) = other?.map (·.page))
      ((file.visit who number).settled p) ((file.visit who number).settled q) := by
  simp only [HeapFile.visit, Activity.settledBind, Activity.settledLift, Activity.settledIte]
  refine (countConcurs twins held known).andThen fun count a _ b _ counted => ?_
  obtain ⟨there, rfl, grew, rfl⟩ := counted
  have known := known.later grew
  split
  · exact ⟨there, known, rfl⟩
  · rename_i before
    have inside := there.left.inside known before
    cases who with
    | some txn =>
      simp only [Activity.settledMap]
      refine (getPageConcurs there held txn .shared inside).andThen fun f c g d _ got => ?_
      exact ⟨got.1.twins, known.later got.2.1, congrArg some got.1.same.symm⟩
    | none =>
      simp only [Activity.settledMap, Activity.settledLift]
      have looked := (fetchConcurs there held inside).also (fetchEnds there.left.toHoused _)
      refine looked.andThen fun f c g d _ got => ?_
      exact ⟨got.1.twins, known.later got.2.1.grew, congrArg some got.1.same.symm⟩

theorem walkConcurs (twins : Twins scope p q) (held : scope.Holds file.table)
    (known : p.Knows file) (who : Option TxnId) (left : Nat) (number : UInt32) :
    Concur (Twins scope) (fun records p' others q' => Twins scope p' q' ∧ records = others)
      ((file.walk who left number).settled p) ((file.walk who left number).settled q) := by
  induction left generalizing p q number with
  | zero => exact ⟨twins, rfl⟩
  | succ left ih =>
    simp only [HeapFile.walk, Activity.settledBind]
    refine (visitConcurs twins held known who number).andThen fun frame? a other? b _ visited => ?_
    obtain ⟨there, known, same⟩ := visited
    cases frame? with
    | none =>
      cases other? with
      | none => exact ⟨there, rfl⟩
      | some g => cases same
    | some f =>
      cases other? with
      | none => cases same
      | some g =>
        have same : f.page = g.page := Option.some.inj same
        simp only [Activity.settledBind, Activity.settledPure]
        refine (ih there known (number + 1)).andThen fun records c _ d _ walked => ?_
        obtain ⟨here, rfl⟩ := walked
        exact ⟨here, congrArg (·.records ++ records) same⟩

/- Flushes, and ends of transactions. -/

theorem flushEachConcurs (twins : Twins scope p q) {pages pages' : List PageId}
    (same : ∀ page : PageId, scope.Holds page.table → p.marked page = true →
      (page ∈ pages ↔ page ∈ pages')) :
    Concur (Twins scope) (fun _ m _ n => Twins scope m n ∧ m.locks = p.locks ∧
        n.locks = q.locks ∧ (∀ page ∈ pages, m.CleanAt page) ∧ ∀ page ∈ pages', n.CleanAt page)
      (pages.forM flushPage p) (pages'.forM flushPage q) :=
  .sure (twins.left.flushed pages) (twins.right.flushed pages') fun _ m _ n here there => by
    obtain ⟨left, mine, wrote, clean⟩ := here
    obtain ⟨right, theirs, wrote', clean'⟩ := there
    exact ⟨⟨left, right, twins.alike.flushed mine theirs wrote wrote' same⟩, wrote.locks,
      wrote'.locks, clean, clean'⟩

/- The pages that are in the cache are others, but those that are changed are the same. -/
theorem flushAllConcurs (twins : Twins scope p q) :
    Concur (Twins scope) (fun _ p' _ q' => Twins scope p' q') (flushAll p) (flushAll q) := by
  have listed {p : Pool} {page : PageId} (mark : p.marked page = true) :
      page ∈ p.resident.keys := by
    rw [KeyMap.memKeys, KeyMap.contains]
    unfold marked at mark
    cases present : p.resident.get? page with
    | none =>
      rw [present] at mark
      cases mark
    | some frame => rfl
  have drawn : Twins scope {p with draws := p.draws.tail} {q with draws := q.draws.tail} :=
    twins.looked (.drawn trivial p) (.drawn trivial q)
  exact (flushEachConcurs drawn fun page held mark =>
    ⟨fun _ => (arrangedPerm ..).mem_iff.mpr (listed ((twins.alike.marked page held).trans mark)),
      fun _ => (arrangedPerm ..).mem_iff.mpr (listed mark)⟩).mono fun _ _ _ _ flushed => flushed.1

theorem commitConcurs (twins : Twins scope p q) (txn : TxnId) :
    Concur (Twins scope) (fun _ p' _ q' => Twins scope p' q') (commit txn p) (commit txn q) := by
  change Concur _ _ (((p.locks.ownedBy txn).forM flushPage >>= fun _ => releaseAll txn) p)
    (((q.locks.ownedBy txn).forM flushPage >>= fun _ => releaseAll txn) q)
  refine (flushEachConcurs twins fun page held _ =>
    twins.left.ownedAlike twins.right twins.alike held).andThen fun _ m _ n _ flushed => ?_
  obtain ⟨there, mine, theirs, clean, clean'⟩ := flushed
  rw [← mine] at clean
  rw [← theirs] at clean'
  exact there.given clean clean'

theorem abortConcurs (twins : Twins scope p q) (txn : TxnId) :
    Concur (Twins scope) (fun _ p' _ q' => Twins scope p' q') (abort txn p) (abort txn q) := by
  have clean {p m : Pool} (forgot : Forgot (p.locks.ownedBy txn) p m) :
      ∀ page ∈ m.locks.ownedBy txn, m.CleanAt page := fun page mine frame present => by
    rw [forgot.locks] at mine
    rw [forgot.resident, if_pos mine] at present
    cases present
  have mine := forgetAll (p.locks.ownedBy txn) p
  have theirs := forgetAll (q.locks.ownedBy txn) q
  have forgotten : Twins scope ((p.locks.ownedBy txn).foldl drop p)
      ((q.locks.ownedBy txn).foldl drop q) :=
    ⟨twins.left.forgot mine, twins.right.forgot theirs, twins.alike.forgot mine theirs
      fun page held => twins.left.ownedAlike twins.right twins.alike held⟩
  exact forgotten.given (clean mine) (clean theirs)

end Pool
end PagedHeap
