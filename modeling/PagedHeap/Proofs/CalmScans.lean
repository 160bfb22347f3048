import PagedHeap.Proofs.Endings
import PagedHeap.Proofs.LockFootprints
import PagedHeap.Proofs.Openings
import PagedHeap.Proofs.Scans
import PagedHeap.Proofs.Searches
import PagedHeap.Proofs.SureCalls

/-! Lists of a table while nobody is at work. No page is changed then, so every page can leave the
cache and be locked, and the list is what the volume holds. A place for a record can be looked for
in the same way, and where every page is full the file grows. -/
namespace PagedHeap.Pool

variable {α β : Type} {p q : Pool} {act : Act} {file : HeapFile} {txn : TxnId}

theorem Move.unlatched (move : Move act p q) : q.latched = p.latched := by
  cases move with
  | evict | forget =>
    unfold drop
    split <;> rfl
  | _ => rfl

theorem Moves.unlatched {kind : Act → Prop} (moves : Moves kind p q) : q.latched = p.latched :=
  moves.within (fun p q => q.latched = p.latched) (fun _ => rfl)
    (fun _ _ _ first second => second.trans first) fun _ _ _ _ => Move.unlatched

/- Nobody owns a page or writes to one, and there is a place in the cache. -/
structure Unowned (p : Pool) : Prop extends Guarded p where
  smooth : p.Smooth
  room : p.Room
  space : 0 < p.capacity
  unlatched : p.latched = []
  free : ∀ txn page, p.locks.access? txn page ≠ some .exclusive

structure Calm (p : Pool) : Prop extends Unowned p where
  slots : ∀ table file, p.tables.get? table = some file → file.layout.slots ≤ UInt32.size

theorem Calm.toOrderly (calm : p.Calm) : p.Orderly where
  toSound := calm.toSound
  apart := calm.apart
  writes := calm.smooth.calls .write
  fills := calm.smooth.calls .fill
  slots := calm.slots
  coherent := calm.coherent
  owned := calm.owned

namespace Unowned

theorem clean (unowned : p.Unowned) (page : PageId) : p.CleanAt page := by
  intro frame present
  cases mark : frame.page.dirtiedBy with
  | none => rfl
  | some txn => exact absurd (unowned.owned page frame txn present mark) (unowned.free txn page)

theorem uncrowded (unowned : p.Unowned) : ¬ p.Crowded := by
  intro crowded
  have filled : 0 < p.resident.entries.length := Nat.lt_of_lt_of_le unowned.space crowded.full
  obtain ⟨⟨page, frame⟩, there⟩ := List.exists_mem_of_length_pos filled
  have present := (p.resident.memEntries page frame).mp there
  have victim : page ∈ p.victims := by
    refine memVictims.mpr ⟨frame, present, ?_⟩
    have idle : p.locks.isOwned page = false := Bool.eq_false_iff.mpr fun owned => by
      obtain ⟨txn, owns⟩ := unowned.coherent.ownedIff.mp owned
      exact unowned.free txn page owns
    have unmarked : frame.page.isDirty = false := by
      rw [Page.isDirty, unowned.clean page frame present]
      rfl
    rw [isVictim, idle, unmarked, unowned.unlatched]
    rfl
  rw [crowded.stay] at victim
  exact List.not_mem_nil victim

theorem looked (unowned : p.Unowned) (moves : Moves Act.looks p q) : q.Unowned where
  toGuarded := unowned.toGuarded.moves (fun _ => Act.looksOrderly) moves
  smooth := unowned.smooth.moves unowned.toHoused unowned.apart (fun _ => Act.looksOrderly) moves
  room := (unowned.apart.sizedMoves (fun _ => Act.looksStill) moves).room unowned.room
  space := moves.grew.capacity ▸ unowned.space
  unlatched := moves.unlatched.trans unowned.unlatched
  free txn page := by
    rw [moves.sameLocks]
    exact unowned.free txn page

theorem shared (unowned : p.Unowned) (txn : TxnId) (page : PageId) :
    Unowned {p with locks := (p.locks.request ⟨txn, page, .shared⟩).2} := by
  have granted : (p.locks.request ⟨txn, page, .shared⟩).1 = true :=
    shareGranted unowned.coherent fun other => unowned.free other page
  exact {
    toGuarded := unowned.toGuarded.move (by trivial) (.take granted)
    smooth := unowned.smooth.relocked _
    room := unowned.room
    space := unowned.space
    unlatched := unowned.unlatched
    free := fun other there owns => by
      refine unowned.free other there ?_
      rw [LockTable.accessRequest granted] at owns
      split at owns
      · split at owns
        · assumption
        · cases owns
      · exact owns }

end Unowned

/- One table on a volume without faults, before anything has been asked for. -/
theorem unownedAlone {config : Config} {storage : Storage} (draws : List Nat) (file : HeapFile)
    (own : storage.pageSize file.volume = file.layout.pageSize) (space : 0 < config.poolSize)
    (spared : ∀ point, storage.Spares file.volume point)
    (whole : ∀ n image, storage.page? file.volume n = some image →
      image.length = file.layout.pageSize)
    (few : storage.pages file.volume < UInt32.size) :
    Unowned {ofConfig config storage with
      draws, tables := KeyMap.empty.insert file.table file} := by
  have alone {table : TableId} {other : HeapFile}
      (found : (KeyMap.empty.insert file.table file).get? table = some other) : file = other := by
    obtain same | none := KeyMap.insertSource found
    · exact same
    · cases none
  exact {
    toGuarded := (unusedAlone config storage draws file own).guarded
    smooth := {
      calls := fun point table other found => alone found ▸ spared point
      whole := fun _ page other image found held => by
        simp only [image?, found, Option.bind_some] at held
        obtain rfl := alone found
        exact whole _ _ held }
    room := fun table other found => alone found ▸ few
    space := space
    unlatched := rfl
    free := nofun }

/- The activity comes to its end at once, and not by failing. -/
def Arrives (fact : α → Pool → Prop) (work : Progress Pool α) : Prop :=
  ∃ a q, work = .ended (.ok a q) ∧ fact a q

theorem Arrives.andThen {fact : α → Pool → Prop} {final : β → Pool → Prop} {work : Progress Pool α}
    {next : α → Pool → Progress Pool β} (first : Arrives fact work)
    (rest : ∀ a q, fact a q → Arrives final (next a q)) : Arrives final (work.andThen next) := by
  obtain ⟨a, q, rfl, told⟩ := first
  exact rest a q told

theorem Arrives.sure {fact : α → Pool → Prop} {r : EStateM.Result Error Pool α}
    (h : Ends fact (fun _ => False) r) : Arrives fact (.ended r) := by
  obtain ⟨a, q, rfl, told⟩ := h.sure
  exact ⟨a, q, rfl, told⟩

theorem getPageArrives (unowned : p.Unowned) {page : PageId}
    (known : p.tables.get? page.table = some file)
    (inside : page.number.toNat < p.storage.pages file.volume) :
    Arrives (fun _ q => q.Unowned ∧ q.tables.get? page.table = some file)
      (getPage txn page .shared p) := by
  have granted : (p.locks.request ⟨txn, page, .shared⟩).1 = true :=
    shareGranted unowned.coherent fun other => unowned.free other page
  have locked : lock ⟨txn, page, .shared⟩ p =
      .ended (.ok () {p with locks := (p.locks.request ⟨txn, page, .shared⟩).2}) := by
    unfold lock
    rw [LockTable.acquireGranted (u := (p.locks.request ⟨txn, page, .shared⟩).2)
      (by rw [← granted])]
  change Arrives _ ((lock ⟨txn, page, .shared⟩ p).andThen fun _ q => .ended (fetch page q))
  rw [locked]
  have there := unowned.shared txn page
  obtain ⟨image, seen⟩ := viewPresent known inside
  have fetched := fetchManages there.toHoused there.apart there.smooth there.room known
    (show view? {p with locks := _} page = some image from seen)
  change Arrives _ (.ended (fetch page {p with locks := _}))
  cases done : fetch page {p with locks := (p.locks.request ⟨txn, page, .shared⟩).2} with
  | ok frame q =>
    rw [done] at fetched
    exact ⟨frame, q, rfl, there.looked fetched.1, fetched.1.grew.tables _ _ known⟩
  | error e q =>
    rw [done] at fetched
    exact absurd fetched.2 there.uncrowded

theorem countArrives (unowned : p.Unowned) (known : p.Knows file) :
    Arrives (fun n q => q.Unowned ∧ q.Knows file ∧ n = .ofNat (q.storage.pages file.volume))
      (.ended (onStorage file.count p)) := by
  refine .sure (Ends.inPart ((Storage.countSpared (unowned.smooth.calls .count _ _ known)).mono
    (fun n storage seen => ?_) (fun _ none => none)))
  exact ⟨unowned.looked (.one (show Act.looks .aside from trivial) (.aside seen.1)), known,
    seen.2.trans (congrArg UInt32.ofNat (seen.1.pages _).symm)⟩

theorem visitArrives (unowned : p.Unowned) (known : p.Knows file) (number : UInt32) :
    Arrives (fun _ q => q.Unowned ∧ q.Knows file) (file.visit (some txn) number p) := by
  refine (countArrives unowned known).andThen fun n q here => ?_
  obtain ⟨there, known, rfl⟩ := here
  change Arrives _ ((if UInt32.ofNat (q.storage.pages file.volume) ≤ number then pure none
    else some <$> getPage txn ⟨file.table, number⟩ .shared : Activity Pool (Option Frame)) q)
  split
  · exact ⟨_, q, rfl, there, known⟩
  · rename_i inside
    rw [UInt32.le_iff_toNat_le, UInt32.toNat_ofNat_of_lt' (there.room _ _ known)] at inside
    have got : Arrives (fun _ r => r.Unowned ∧ r.Knows file)
        (getPage txn ⟨file.table, number⟩ .shared q) :=
      getPageArrives there known (Nat.lt_of_not_le inside)
    exact got.andThen fun frame r here => ⟨_, r, rfl, here⟩

theorem walkArrives (unowned : p.Unowned) (known : p.Knows file) (left : Nat) (number : UInt32) :
    Arrives (fun _ q => q.Unowned) (file.walk (some txn) left number p) := by
  induction left generalizing p number with
  | zero => exact ⟨_, p, rfl, unowned⟩
  | succ left ih =>
    refine (visitArrives unowned known number).andThen fun frame? q here => ?_
    cases frame? with
    | none => exact ⟨_, q, rfl, here.1⟩
    | some frame =>
      exact (ih here.1 here.2 (number + 1)).andThen fun _ r unowned => ⟨_, r, rfl, unowned⟩

theorem Calm.lists (calm : p.Calm) (known : p.Knows file) (txn : TxnId) :
    ∃ q, file.scan (some txn) p = .ended (.ok (file.decode p.storage) q) ∧ q.Calm ∧
      Moves (Act.reads (some txn)) p q := by
  obtain ⟨records, q, done, there⟩ : Arrives (fun _ q => q.Unowned) (file.scan (some txn) p) :=
    walkArrives calm.toUnowned known UInt32.size 0
  have scanned : Progress.Meets _ _ _ (file.scan (some txn) p) p := scanMeets calm.toOrderly known
  rw [done] at scanned
  obtain ⟨moves, scanned⟩ := scanned
  obtain ⟨listed, _⟩ := scanned there.room
  have rows : q.rows = p.durable := by
    rw [(calm.toOrderly.looksQuiet moves.asSeeks there.room).rows]
    exact funext fun rid => (calm.toOrderly.cleanRows calm.room (calm.clean rid.page)).symm
  rw [rows] at listed
  obtain rfl : records = file.decode p.storage :=
    listed.unique (calm.toOrderly.decoded calm.room known)
  have slots := calm.slots
  rw [← moves.sizedReads.tables] at slots
  exact ⟨q, done, ⟨there, slots⟩, moves⟩

theorem scanNothing (spared : p.storage.Spares file.volume .count)
    (none : UInt32.ofNat (p.storage.pages file.volume) = 0) (who : Option TxnId) :
    ∃ q, file.scan who p = .ended (.ok [] q) := by
  have counted : Ends (fun n _ => n = 0) (fun _ => False) (onStorage file.count p) :=
    Ends.inPart ((Storage.countSpared spared).mono (fun _ _ seen => seen.2.trans none)
      fun _ none => none)
  obtain ⟨n, q, done, rfl⟩ := counted.sure
  have visited : file.visit who 0 p = .ended (.ok Option.none q) := by
    change (Progress.ended (onStorage file.count p)).andThen _ = _
    rw [done]
    rfl
  obtain ⟨left, count⟩ : ∃ left, UInt32.size = left + 1 := ⟨_, rfl⟩
  refine ⟨q, ?_⟩
  unfold HeapFile.scan
  rw [count]
  change (file.visit who 0 p).andThen _ = _
  rw [visited]
  rfl

/- Looking for a place. -/

theorem Arrives.both {fact done : α → Pool → Prop} {failed : Pool → Prop} {work : Progress Pool α}
    (first : Arrives fact work) (ends : Ends done failed work.settle) :
    Arrives (fun a q => fact a q ∧ done a q) work := by
  obtain ⟨a, q, rfl, told⟩ := first
  exact ⟨a, q, rfl, told, ends⟩

theorem Unowned.unprobed (unowned : p.Unowned) {page : PageId}
    (shared : p.locks.access? txn page = some .shared) :
    Unowned {p with locks := p.locks.release txn page} where
  toGuarded := unowned.toGuarded.move (by trivial) (.unprobe shared)
  smooth := unowned.smooth.relocked _
  room := unowned.room
  space := unowned.space
  unlatched := unowned.unlatched
  free other there owns := by
    rw [LockTable.accessRelease] at owns
    split at owns
    · cases owns
    · exact unowned.free other there owns

theorem firstWithRoomArrives (unowned : p.Unowned) (known : p.Knows file) (numbers : List UInt32)
    (inside : ∀ number ∈ numbers, number.toNat < p.storage.pages file.volume) :
    Arrives (fun _ q => q.Unowned ∧ q.Knows file) (file.firstWithRoom txn numbers p) := by
  induction numbers generalizing p with
  | nil => exact ⟨none, p, rfl, unowned, known⟩
  | cons number rest ih =>
    have got : Arrives (fun _ q => q.Unowned ∧ q.Knows file)
        (getPage txn ⟨file.table, number⟩ .shared p) :=
      getPageArrives unowned known (inside number List.mem_cons_self)
    refine (got.both (getPageSettles unowned.toHoused txn ⟨file.table, number⟩ .shared)).andThen
      fun frame q here => ?_
    obtain ⟨⟨there, known⟩, moves, _, access⟩ := here
    have later (number : UInt32) (listed : number ∈ rest) :
        number.toNat < q.storage.pages file.volume :=
      Nat.lt_of_lt_of_le (inside number (List.mem_cons_of_mem _ listed))
        (moves.grew.storage.grown file.volume)
    change Arrives _ ((if frame.page.hasRoom then pure (some ⟨file.table, number⟩)
      else (monadLift (releaseProbe (p.locks.holds txn ⟨file.table, number⟩) txn
        ⟨file.table, number⟩) >>= fun _ => file.firstWithRoom txn rest :
          Activity Pool (Option PageId)) : Activity Pool (Option PageId)) q)
    split
    · exact ⟨_, q, rfl, there, known⟩
    · change Arrives _ (Progress.andThen (fun _ => file.firstWithRoom txn rest) (.ended
        (releaseProbe (p.locks.holds txn ⟨file.table, number⟩) txn ⟨file.table, number⟩ q)))
      cases held : p.locks.holds txn ⟨file.table, number⟩ with
      | true => exact ih there known later
      | false =>
        have missing : p.locks.access? txn ⟨file.table, number⟩ = none := by
          simpa [LockTable.holds] using held
        rw [missing] at access
        exact ih (there.unprobed access) known later

theorem pageWithRoomArrives (unowned : p.Unowned) (known : p.Knows file) :
    Arrives (fun _ _ => True) (file.pageWithRoom txn p) := by
  refine (countArrives unowned known).andThen fun count q here => ?_
  obtain ⟨there, known, rfl⟩ := here
  have inside (number : UInt32)
      (listed : number ∈ (List.range (UInt32.ofNat (q.storage.pages file.volume)).toNat).map
        UInt32.ofNat) : number.toNat < q.storage.pages file.volume := by
    have before := memNumbers.mp listed
    rwa [UInt32.lt_iff_toNat_lt, UInt32.toNat_ofNat_of_lt' (there.room _ _ known)] at before
  refine (firstWithRoomArrives there known _ inside).andThen fun page? r here => ?_
  obtain ⟨unowned, known⟩ := here
  cases page? with
  | some page => exact ⟨page, r, rfl, trivial⟩
  | none =>
    obtain ⟨n, storage, made, _⟩ :=
      Storage.allocateSpared (unowned.smooth.calls .allocate _ _ known)
    refine Arrives.sure (Ends.inPart (?_ : Ends _ _ (file.allocate r.storage)))
    unfold HeapFile.allocate
    rw [okThen made]
    trivial

theorem Unowned.finds (unowned : p.Unowned) (known : p.Knows file) :
    Ends (Sought txn p file) (fun _ => False) ((file.pageWithRoom txn).settled p) := by
  have settles : Ends (Sought txn p file) _ ((file.pageWithRoom txn).settled p) :=
    pageWithRoomSettles (unowned.toSound.searchable unowned.apart unowned.room) known
      (unowned.room _ _ known)
  obtain ⟨home, q, made, _, sought⟩ := (pageWithRoomArrives unowned known).both settles
  have found : (file.pageWithRoom txn).settled p = .ok home q := congrArg Progress.settle made
  rw [found]
  exact sought

theorem roomInside (housed : p.Housed) (known : p.Knows file) {number : UInt32}
    (room : ¬ p.Full ⟨file.table, number⟩) : number.toNat < p.storage.pages file.volume := by
  refine Classical.not_not.mp fun beyond => room fun slot bytes free => beyond ?_
  obtain ⟨_, _, image, seen, _⟩ : ∃ its, p.tables.get? file.table = some its ∧
      ∃ image, p.view? ⟨file.table, number⟩ = some image ∧
        its.layout.slot? image slot = some (false, bytes) := by
    simpa only [slot?, Option.bind_eq_some_iff] using free
  exact viewInside housed (show p.tables.get? (PageId.mk file.table number).table = some file
    from known) seen

structure Outgrows (file : HeapFile) (p q : Pool) : Prop where
  grew : Grew p q
  pages : q.storage.pages file.volume = p.storage.pages file.volume + 1

theorem Unowned.grows (unowned : p.Unowned) (known : p.Knows file)
    (full : ∀ number, number.toNat < p.storage.pages file.volume → p.Full ⟨file.table, number⟩)
    {data : Bytes} (takes : file.layout.Takes data) :
    Ends (fun _ => Outgrows file p) (Outgrows file p)
      ((insert txn file.table data).settled p) := by
  have able := unowned.toSound.searchable unowned.apart unowned.room
  have few := unowned.room _ _ known
  have blank := unowned.smooth.calls .fill _ _ known
  have grown {home : PageId} {q : Pool} (sought : Sought txn p file home q) :
      Outgrows file p q := by
    cases sought with
    | found moves own room =>
      obtain ⟨table, number⟩ := home
      cases own
      exact absurd (full number (roomInside unowned.toHoused known room)) room
    | added early extended late =>
      obtain ⟨_, grown⟩ := able.grown known few blank early extended late
      exact ⟨(early.grew.trans extended.grew).trans late.grew, grown.storage.pages⟩
  obtain ⟨tries, count⟩ : ∃ tries, UInt32.size = tries + 1 := ⟨_, rfl⟩
  have within : Ends (fun x q => ∃ m, Sought txn p file x.1.page m ∧
        Move (.fill txn x.1 data) m q ∧ Pinned txn x.2 q)
      (fun q => ∃ home, Sought txn p file home q)
      ((file.insertWithin txn data UInt32.size).settled p) := by
    rw [count]
    simp only [HeapFile.insertWithin, Activity.settledBind, Activity.settledIte]
    refine (unowned.finds known).andThen (fun home q sought => ?_) (fun _ none => none.elim)
    exact (insertAtSettles able known few blank sought data tries).mono (fun _ _ filled => filled)
      fun _ lost => ⟨home, lost⟩
  refine (insertFromWithin known (fun wide => absurd takes wide) within).mono
    (fun rid q ended => ?_) fun q lost => ?_
  · obtain ⟨m, sought, move⟩ := ended
    obtain ⟨grew, pages⟩ := grown sought
    cases move
    exact ⟨grew.trans (.ofTables rfl rfl (.refl _)), pages⟩
  · obtain ⟨home, sought⟩ := lost
    exact grown sought

theorem Unowned.inserts (unowned : p.Unowned) (known : p.Knows file)
    (alone : ∀ other, other ≠ txn → p.locks.heldBy other = []) {number : UInt32}
    (room : ¬ p.Full ⟨file.table, number⟩) {data : Bytes} (takes : file.layout.Takes data) :
    Ends (fun rid q => ∃ m, Sought txn p file rid.page m ∧ Move (.fill txn rid data) m q)
      (fun _ => False) ((insert txn file.table data).settled p) := by
  have able := unowned.toSound.searchable unowned.apart unowned.room
  have few := unowned.room _ _ known
  have blank := unowned.smooth.calls .fill _ _ known
  obtain ⟨tries, count⟩ : ∃ tries, UInt32.size = tries + 1 := ⟨_, rfl⟩
  refine insertFromWithin known (fun wide => absurd takes wide) ?_
  rw [count]
  simp only [HeapFile.insertWithin, Activity.settledBind, Activity.settledIte]
  have acts := ((actsForUpkeep (some txn)).pieces.pageWithRoom file).settled p
  refine (((unowned.finds known).both (pageWithRoomLocks unowned.toHoused known few blank)).both
    acts).andThen (fun home q here => ?_) (fun _ none => none.1.1)
  obtain ⟨⟨sought, there, still, placed, _⟩, acts⟩ := here
  have filled := insertAtSettles able known few blank sought data tries
  cases sought with
  | added _ _ _ full => exact absurd (full number (roomInside unowned.toHoused known room)) room
  | found moves _ free =>
    cases placed with
    | fresh =>
      have inside := roomInside unowned.toHoused known free
      rw [UInt32.toNat_ofNat_of_lt' few] at inside
      exact absurd inside (Nat.lt_irrefl _)
    | roomy own roomy =>
      obtain ⟨frame, present, room⟩ := roomy.here
      have coherent := (unowned.toGuarded.moves (fun _ => Act.probesOrderly) moves).coherent
      have granted : (q.locks.request ⟨txn, home, .exclusive⟩).1 = true := by
        refine (coherent.requestLaw _).grantedIff.mpr fun other apart l held => ?_
        rw [acts other (fun same => apart (Option.some.inj same).symm), alone other apart] at held
        cases held
      rw [okThen (getPageGranted present granted), if_pos room] at filled ⊢
      obtain ⟨its, found, _, layout, _⟩ := there.keeps _ _ present
      rw [own] at found
      obtain rfl : file = its := Option.some.inj (still.symm.trans found)
      have owns := (LockTable.Set.own granted home).trans (if_pos rfl)
      have sure := fillSure (there.move (.take granted)) present owns room (layout ▸ takes)
      exact (filled.both sure).mono (fun _ _ both => both.1) (fun _ lost => lost.2)

end PagedHeap.Pool
