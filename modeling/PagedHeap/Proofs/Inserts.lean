import PagedHeap.Proofs.CacheLaws
import PagedHeap.Proofs.Guards
import PagedHeap.Proofs.Searches

/-! What an insert comes to that is left alone and succeeds. The record gets the least place that
is not in use, or the first one of a blank page if all are in use, and nothing else can be seen
to have changed. -/
namespace PagedHeap

namespace Page

theorem Inserted.slot {p q : Page} {data : Bytes} {slot : Nat} (h : Inserted p data slot q)
    (s : Nat) : q.layout.slot? q.image s =
      if slot = s then some (true, data) else p.layout.slot? p.image s := by
  have slots : q.slots = p.slots := congrArg Layout.slots h.sameLayout
  by_cases inside : s < p.slots
  · rw [q.slotOf (slots ▸ inside), h.used, p.slotOf inside]
    split
    · rename_i here
      rw [← here, h.stored]
    · rename_i away
      rw [h.others s inside away]
  · rw [q.slotBeyond (slots ▸ inside), p.slotBeyond inside, if_neg]
    rintro rfl
    exact inside h.inRange

end Page

namespace Pool

variable {p q m : Pool} {file : HeapFile} {txn : TxnId} {rid : Rid} {data : Bytes}

def Free (p : Pool) (rid : Rid) : Prop :=
  ∃ bytes, p.slot? rid.page rid.slot.toNat = some (false, bytes)

theorem Free.notFull (free : p.Free rid) : ¬ p.Full rid.page := by
  obtain ⟨bytes, there⟩ := free
  exact fun full => full _ _ there

structure Filling (p q : Pool) (txn : TxnId) (rid : Rid) (data : Bytes) : Prop where
  stored : q.slot? rid.page rid.slot.toNat = some (true, data)
  beside : ∀ slot, slot ≠ rid.slot.toNat → q.slot? rid.page slot = p.slot? rid.page slot
  free : p.Free rid
  least : ∀ slot, slot < rid.slot → ¬ p.Free ⟨rid.page, slot⟩
  elsewhere : ∀ page, page ≠ rid.page → q.view? page = p.view? page
  marked : ∃ frame, q.resident.get? rid.page = some frame ∧ frame.page.dirtiedBy = some txn
  owned : q.locks.access? txn rid.page = some .exclusive
  storage : q.storage = p.storage

theorem Housed.filling (housed : p.Housed) (known : p.tables.get? rid.page.table = some file)
    (few : file.layout.slots ≤ UInt32.size) (move : Move (.fill txn rid data) p q) :
    Filling p q txn rid data := by
  have there := housed.move move
  cases move with
  | @fill _ _ _ _ frame copy owns present filled =>
    obtain ⟨slot, place, inserted⟩ := Page.insertSource filled
    obtain ⟨its, found, key, layout, _⟩ := housed.keeps _ frame present
    cases known.symm.trans found
    have inside : slot < UInt32.size := Nat.lt_of_lt_of_le inserted.inRange (by
      rw [Page.slots, layout]
      exact few)
    have number : rid.slot.toNat = slot := by
      rw [place]
      exact UInt32.toNat_ofNat_of_lt' inside
    have mine : (p.resident.insert rid.page ⟨frame.id, copy.markDirty txn⟩).get? rid.page = _ :=
      (KeyMap.getInsert ..).trans (if_pos rfl)
    have slots (s : Nat) : slot? {p with
        resident := p.resident.insert rid.page ⟨frame.id, copy.markDirty txn⟩} rid.page s =
        if slot = s then some (true, data) else p.slot? rid.page s := by
      rw [slotResident there mine, slotResident housed present]
      exact inserted.slot s
    refine ⟨?_, fun s away => ?_, ?_, fun s before => ?_, fun page away => ?_, ?_, owns, rfl⟩
    · rw [slots, if_pos number.symm]
    · rw [slots, if_neg fun same => away (same.symm.trans number.symm)]
    · refine ⟨frame.page.slotBytes slot, ?_⟩
      rw [number, slotResident housed present, frame.page.slotOf inserted.inRange, inserted.free]
    · rw [UInt32.lt_iff_toNat_lt, number] at before
      rintro ⟨bytes, free⟩
      rw [slotResident housed present, frame.page.slotOf (Nat.lt_trans before inserted.inRange),
        inserted.least _ before] at free
      cases free
    · exact viewElsewhere away.symm
    · exact ⟨_, mine, rfl⟩

/- The least place that is free, or else the first one of the page that the file grows by. -/
inductive Least (p : Pool) (file : HeapFile) (q : Pool) : Rid → Prop
  | free {rid : Rid} (own : rid.page.table = file.table) (free : p.Free rid)
      (least : ∀ other, other.page.table = file.table → p.Free other → other = rid ∨ rid < other)
      (still : ∀ v, q.storage.pages v = p.storage.pages v) : Least p file q rid
  | fresh (used : ∀ rid, rid.page.table = file.table → ¬ p.Free rid)
      (grown : ∀ table its, p.tables.get? table = some its → q.storage.pages its.volume =
        if file.table = table then p.storage.pages its.volume + 1 else p.storage.pages its.volume) :
      Least p file q ⟨⟨file.table, .ofNat (p.storage.pages file.volume)⟩, 0⟩

/- What an insert leaves that has given a record its place. -/
structure Inserts (p q : Pool) (txn : TxnId) (file : HeapFile) (rid : Rid) (data : Bytes) :
    Prop where
  place : Least p file q rid
  stored : q.slot? rid.page rid.slot.toNat = some (true, data)
  beside : ∀ slot, slot ≠ rid.slot.toNat → q.slot? rid.page slot =
    file.layout.slot? ((p.view? rid.page).getD file.layout.blankImage) slot
  elsewhere : ∀ page, page ≠ rid.page → q.view? page = p.view? page
  marked : ∃ frame, q.resident.get? rid.page = some frame ∧ frame.page.dirtiedBy = some txn
  owned : q.locks.access? txn rid.page = some .exclusive

theorem slotSeen {page : PageId} {image : Bytes} (known : p.tables.get? page.table = some file)
    (seen : p.view? page = some image) (slot : Nat) :
    p.slot? page slot = file.layout.slot? image slot := by
  simp only [slot?, known, seen, Option.bind_some]

theorem Free.seen (free : p.Free rid) : ∃ image, p.view? rid.page = some image := by
  obtain ⟨bytes, there⟩ := free
  simp only [slot?, Option.bind_eq_some_iff] at there
  obtain ⟨_, _, image, seen, _⟩ := there
  exact ⟨image, seen⟩

theorem Searchable.insertsFound (able : p.Searchable) (known : p.Knows file)
    (slots : file.layout.slots ≤ UInt32.size) (moves : Moves (Act.probes (some txn)) p m)
    (its : rid.page.table = file.table)
    (first : ∀ number, number < rid.page.number → p.Full ⟨file.table, number⟩)
    (move : Move (.fill txn rid data) m q) : Inserts p q txn file rid data := by
  obtain ⟨there, alike⟩ := able.probed moves
  have found : p.tables.get? rid.page.table = some file := its ▸ known
  have filling := there.toHoused.filling (alike.tables ▸ found) slots move
  have free (other : Rid) : m.Free other ↔ p.Free other := by simp only [Free, alike.slot]
  have mine : p.Free rid := (free rid).mp filling.free
  refine ⟨.free its mine (fun other own there => ?_) fun v => ?_, filling.stored,
    fun slot away => ?_, fun page away => ?_, filling.marked, filling.owned⟩
  · obtain ⟨⟨table, number⟩, slot⟩ := other
    obtain rfl : table = file.table := own
    rcases Rid.total ⟨⟨file.table, number⟩, slot⟩ rid with before | same | behind
    · rcases before with (below | ⟨_, below⟩) | ⟨here, below⟩
      · rw [its] at below
        exact absurd below (UInt32.lt_irrefl _)
      · exact absurd (first number below) there.notFull
      · refine absurd ((free _).mpr ?_) (filling.least slot below)
        exact here ▸ there
    · exact .inl same
    · exact .inr behind
  · rw [filling.storage, alike.storage.pages]
  · obtain ⟨image, seen⟩ := mine.seen
    rw [filling.beside slot away, alike.slot, slotSeen found seen, seen, Option.getD_some]
  · rw [filling.elsewhere page away, alike.views]

theorem Searchable.insertsFresh (able : p.Searchable) (known : p.Knows file)
    (few : p.storage.pages file.volume < UInt32.size) (slots : file.layout.slots ≤ UInt32.size)
    (grown : Grown p file m) (there : m.Searchable) {slot : UInt32}
    (full : ∀ number, number.toNat < p.storage.pages file.volume → p.Full ⟨file.table, number⟩)
    (move : Move (.fill txn ⟨⟨file.table, .ofNat (p.storage.pages file.volume)⟩, slot⟩ data) m q) :
    Inserts p q txn file ⟨⟨file.table, .ofNat (p.storage.pages file.volume)⟩, slot⟩ data := by
  have found : m.tables.get? file.table = some file := grown.tables ▸ known
  have filling := there.toHoused.filling found slots move
  have last : (UInt32.ofNat (p.storage.pages file.volume)).toNat = p.storage.pages file.volume :=
    UInt32.toNat_ofNat_of_lt' few
  -- a blank page has its first slot free
  have start : slot = 0 := by
    by_contra other
    have before : 0 < slot := UInt32.pos_iff_ne_zero.mpr other
    exact filling.least 0 before ⟨_, (grown.slot known few 0).trans
      (file.layout.slotBlank file.layout.holdsOne)⟩
  subst start
  have within (number : UInt32) (image : Bytes) (seen : p.view? ⟨file.table, number⟩ = some image) :
      number.toNat < p.storage.pages file.volume :=
    viewInside able.toHoused (show p.tables.get? (PageId.mk file.table number).table = some file
      from known) seen
  have unseen : p.view? ⟨file.table, .ofNat (p.storage.pages file.volume)⟩ = none := by
    refine Option.eq_none_iff_forall_ne_some.mpr fun image seen => ?_
    have inside := within _ image seen
    rw [last] at inside
    exact Nat.lt_irrefl _ inside
  refine ⟨.fresh (fun rid own free => ?_) fun table its found => ?_, filling.stored,
    fun slot away => ?_, fun page away => ?_, filling.marked, filling.owned⟩
  · obtain ⟨image, seen⟩ := free.seen
    obtain ⟨⟨table, number⟩, place⟩ := rid
    obtain rfl : table = file.table := own
    exact free.notFull (full number (within number image seen))
  · rw [filling.storage]
    exact able.apart.pagesExtended known grown.storage found
  · rw [filling.beside slot away, grown.slot known few, unseen, Option.getD_none]
  · rw [filling.elsewhere page away, grown.views, if_neg]
    rintro ⟨same, number⟩
    refine away ?_
    obtain ⟨table, n⟩ := page
    cases same
    exact congrArg (PageId.mk _) (UInt32.toNat_inj.mp (number.trans last.symm))

theorem Searchable.inserts (able : p.Searchable) (known : p.Knows file)
    (few : p.storage.pages file.volume < UInt32.size) (slots : file.layout.slots ≤ UInt32.size)
    (blank : p.storage.Spares file.volume .fill) (sought : Sought txn p file rid.page m)
    (move : Move (.fill txn rid data) m q) : Inserts p q txn file rid data := by
  obtain ⟨page, slot⟩ := rid
  cases sought with
  | found moves own _ first => exact able.insertsFound known slots moves own first move
  | added early extended late full =>
    obtain ⟨there, grown⟩ := able.grown known few blank early extended late
    exact able.insertsFresh known few slots grown there full move

/-- An insert that nobody disturbs, whatever the cache and the files are like: the record is stored
at the least place of the table that is free, or, when none is, at the first one of a page that the
file has grown by, and it grows for no other reason. Nothing else that is stored has changed. -/
theorem insertTakesLeast {config : Config} {storage : Storage} {draws : List Nat}
    {h : History PoolCall Unit} {t : Traffic Pool PoolCall Unit}
    (run : service.Run {ofConfig config storage with draws} h t) (room : t.state.Room)
    (slots : ∀ table file, t.state.tables.get? table = some file →
      file.layout.slots ≤ UInt32.size) (blank : t.state.Spared .fill) {table : TableId}
    (done : (insert txn table data).settled t.state = .ok rid q) :
    ∃ file, t.state.tables.get? table = some file ∧ Inserts t.state q txn file rid data := by
  have able := (sharingSound (runShared run)).1.searchable (runSeparate run) room
  have ended := insertSettles able room blank txn table data
  rw [done] at ended
  obtain ⟨file, m, known, rfl, sought, move⟩ := ended
  exact ⟨file, known, able.inserts known (room _ _ known) (slots _ _ known) (blank _ _ known)
    sought move⟩

theorem sampleTakesLeast : service.Run sampleStart sampleRun.1 sampleRun.2 ∧
    ∃ q file, (insert 2 1 [9, 0, 0, 0]).settled sampleRun.2.state = .ok ⟨⟨1, 1⟩, 0⟩ q ∧
      Inserts sampleRun.2.state q 2 file ⟨⟨1, 1⟩, 0⟩ [9, 0, 0, 0] := by
  have fits : sampleStart.Fits sampleFile := ⟨rfl, nofun⟩
  have run : service.Run sampleStart sampleRun.1 sampleRun.2 :=
    .alone service (.alone service
      (.alone service .start (.register sampleFile) (fun _ => fits) rfl)
      (.insert 1 1 [7, 0, 0, 0]) trivial rfl) (.commit 1) trivial rfl
  have only (table : TableId) (file : HeapFile)
      (found : sampleRun.2.state.tables.get? table = some file) : file = sampleFile := by
    replace found := (KeyMap.getInsert ..).symm.trans found
    split at found
    · exact (Option.some.inj found).symm
    · cases found
  obtain ⟨q, done⟩ : ∃ q, (insert 2 1 [9, 0, 0, 0]).settled sampleRun.2.state =
    .ok ⟨⟨1, 1⟩, 0⟩ q := ⟨_, rfl⟩
  have spared : sampleRun.2.state.storage.Spares sampleFile.volume .fill :=
    ⟨fun _ inside => absurd inside List.not_mem_nil, fun _ inside => absurd inside List.not_mem_nil⟩
  obtain ⟨file, _, inserted⟩ := insertTakesLeast run
    (fun table file found => only table file found ▸ by decide)
    (fun table file found => only table file found ▸ by decide)
    (fun table file found => only table file found ▸ spared) done
  exact ⟨run, q, file, done, inserted⟩

end Pool
end PagedHeap
