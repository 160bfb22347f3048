import PagedHeap.Proofs.PoolWork

/-! Tables as maps from places to bytes, once as the volumes have them and once as those
who look through the cache see them. Finding pages and places leaves both alone; filling and
clearing a place changes what is seen there, writing a page back makes the two agree on it,
and so does forgetting it, the other way round. -/
namespace PagedHeap

abbrev Rows := Rid → Option Bytes

def Rows.set (rows : Rows) (rid : Rid) (row : Option Bytes) : Rows :=
  fun other => if other = rid then row else rows other

namespace Layout

def row? (l : Layout) (image : Bytes) (slot : Nat) : Option Bytes :=
  if image.length = l.pageSize ∧ slot < l.slots ∧ Bits.test image slot = true then
    some (Bytes.slice image (l.offset slot) l.recordWidth)
  else none

theorem testBlank (size slot : Nat) : Bits.test (List.replicate size 0) slot = false := by
  simp only [Bits.test, List.getElem?_replicate]
  split
  · rename_i byte found
    split at found
    · cases found
      simp [Bits.testByte]
    · cases found
  · rfl

theorem rowBlank (l : Layout) (size slot : Nat) : l.row? (List.replicate size 0) slot = none := by
  simp only [row?, testBlank, Bool.false_eq_true, and_false, if_false]

end Layout

namespace Page

theorem rowOf (p : Page) (slot : Nat) :
    p.layout.row? p.image slot = if p.isUsed slot then some (p.slotBytes slot) else none := by
  simp only [Layout.row?, p.whole, true_and, isUsed, Bool.and_eq_true, decide_eq_true_eq]
  rfl

theorem Inserted.row {p q : Page} {data : Bytes} {slot : Nat} (h : Inserted p data slot q)
    (s : Nat) :
    p.layout.row? q.image s = if slot = s then some data else p.layout.row? p.image s := by
  rw [← h.sameLayout, rowOf, h.sameLayout, rowOf, h.used]
  by_cases here : slot = s
  · subst here
    simp only [if_true, h.stored]
  · simp only [here, if_false]
    by_cases used : p.isUsed s = true
    · simp only [used, if_true, h.others s (usedInRange used) here]
    · simp only [used, Bool.false_eq_true, if_false]

theorem Deleted.row {p q : Page} {slot : Nat} (h : Deleted p slot q) (s : Nat) :
    p.layout.row? q.image s = if slot = s then none else p.layout.row? p.image s := by
  rw [← h.sameLayout, rowOf, h.sameLayout, rowOf, h.used, h.bytes]
  by_cases here : slot = s
  · subst here
    simp only [if_true, Bool.false_eq_true, if_false]
  · simp only [here, if_false]

end Page

namespace Pool

/- What is seen of a page: the copy in the cache, or else what the volume holds. -/
def view? (p : Pool) (page : PageId) : Option Bytes :=
  match p.resident.get? page with
  | some frame => some frame.page.image
  | none => p.image? page

def rowsOf (p : Pool) (images : PageId → Option Bytes) : Rows := fun rid =>
  (p.tables.get? rid.page.table).bind fun file =>
    (images rid.page).bind fun image => file.layout.row? image rid.slot.toNat

def durable (p : Pool) : Rows := p.rowsOf p.image?

def rows (p : Pool) : Rows := p.rowsOf p.view?

/- The pool as the one place where transactions meet: tables are on volumes of their own, all
calls to write and to fill go well, there is a number for every slot, and whoever has marked a page
has it to himself. -/
structure Orderly (p : Pool) : Prop extends Sound p where
  apart : p.Separate
  writes : p.Spared .write
  fills : p.Spared .fill
  slots : ∀ table file, p.tables.get? table = some file → file.layout.slots ≤ UInt32.size
  coherent : p.locks.Coherent
  owned : ∀ page frame txn, p.resident.get? page = some frame →
    frame.page.dirtiedBy = some txn → p.locks.access? txn page = some .exclusive

end Pool

def Act.orderly : Act → Prop
  | .giveBack .. | .giveAll _ | .register _ => False
  | _ => True

theorem Act.seeksOrderly {who : Option TxnId} {act : Act} (h : act.seeks who) : act.orderly := by
  cases act <;> first | exact h.elim | trivial

theorem Act.looksOrderly {act : Act} (h : act.looks) : act.orderly := by
  cases act <;> first | exact h.elim | trivial

theorem Act.savesOrderly {pages : List PageId} {act : Act} (h : act.saves pages) :
    act.orderly := by
  cases act <;> first | exact h.elim | trivial

theorem Act.forgetsOrderly {pages : List PageId} {act : Act} (h : act.forgets pages) :
    act.orderly := by
  cases act <;> first | exact h.elim | trivial

namespace Pool

variable {p q : Pool} {act : Act}

theorem Move.sameTables (allowed : act.orderly) (move : Move act p q) : q.tables = p.tables := by
  cases move with
  | evict | forget => exact dropTables ..
  | giveBack | giveAll | register => exact allowed.elim
  | _ => rfl

theorem Act.orderlyOld (allowed : act.orderly) (file : HeapFile) : act ≠ .register file := by
  rintro rfl
  exact allowed

theorem Move.coherent (coherent : p.locks.Coherent) (move : Move act p q) :
    q.locks.Coherent := by
  cases move with
  | @take _ wanted => exact coherent.perform (.request wanted)
  | @unprobe _ txn page | @giveBack _ txn page => exact coherent.perform (.release txn page)
  | @giveAll _ txn => exact coherent.perform (.releaseAll txn)
  | evict | forget => exact (dropLocks ..).symm ▸ coherent
  | _ => exact coherent

theorem Move.keepsOwner (allowed : act.orderly) (move : Move act p q) {txn : TxnId} {page : PageId}
    (owns : p.locks.access? txn page = some .exclusive) :
    q.locks.access? txn page = some .exclusive := by
  cases move with
  | take granted =>
    refine (LockTable.accessRequest granted txn page).trans ?_
    simp only [owns, if_true]
    split <;> rfl
  | unprobe shared =>
    refine (LockTable.accessRelease ..).trans ?_
    rw [if_neg]
    · exact owns
    · rintro ⟨rfl, rfl⟩
      rw [shared] at owns
      cases owns
  | giveBack | giveAll | register => exact allowed.elim
  | evict | forget => exact (dropLocks ..).symm ▸ owns
  | _ => exact owns

theorem Move.owned (allowed : act.orderly) (move : Move act p q)
    (owned : ∀ page frame txn, p.resident.get? page = some frame →
      frame.page.dirtiedBy = some txn → p.locks.access? txn page = some .exclusive) :
    ∀ page frame txn, q.resident.get? page = some frame →
      frame.page.dirtiedBy = some txn → q.locks.access? txn page = some .exclusive := by
  intro page frame txn present dirty
  have keeps : p.locks.access? txn page = some .exclusive →
      q.locks.access? txn page = some .exclusive := move.keepsOwner allowed
  cases move with
  | load absent space found copied =>
    rw [KeyMap.getInsert] at present
    split at present
    · cases present
      rw [copied.clean] at dirty
      cases dirty
    · exact owned page frame txn present dirty
  | evict | forget =>
    rw [residentDrop] at present
    split at present
    · cases present
    · exact keeps (owned page frame txn present dirty)
  | save =>
    rw [KeyMap.getInsert] at present
    split at present
    · cases present
      cases dirty
    · exact owned page frame txn present dirty
  | fill owns | clear owns =>
    rw [KeyMap.getInsert] at present
    split at present
    · rename_i same
      cases present
      cases dirty
      exact same ▸ owns
    · exact owned page frame txn present dirty
  | giveBack | giveAll | register => exact allowed.elim
  | _ => exact keeps (owned page frame txn present dirty)

theorem ownedAfterAll (coherent : p.locks.Coherent)
    (owned : ∀ page frame txn, p.resident.get? page = some frame →
      frame.page.dirtiedBy = some txn → p.locks.access? txn page = some .exclusive)
    {txn : TxnId} (clean : ∀ page ∈ p.locks.ownedBy txn, p.CleanAt page) :
    ∀ page frame other, p.resident.get? page = some frame →
      frame.page.dirtiedBy = some other →
      (p.locks.releaseAll txn).2.access? other page = some .exclusive := by
  refine fun page frame other present dirty => (LockTable.accessReleaseAll ..).trans ?_
  have owns := owned page frame other present dirty
  -- nothing that the transaction has marked is left, so the mark is somebody else's
  rw [if_neg]
  · exact owns
  · rintro rfl
    have none := clean page (coherent.memOwnedBy.mpr owns) frame present
    rw [none] at dirty
    cases dirty

theorem Orderly.move (h : p.Orderly) (allowed : act.orderly) (move : Move act p q) : q.Orderly := by
  have tables := move.sameTables allowed
  have spares {point : FaultPoint} (spared : p.Spared point) : q.Spared point :=
    fun table file found => move.grew.storage.spares _ _ (spared table file (tables ▸ found))
  exact {
    toSound := h.toSound.move move
    apart := h.apart.move (Act.orderlyOld allowed) move
    writes := spares h.writes
    fills := spares h.fills
    slots := fun table file found => h.slots table file (tables ▸ found)
    coherent := move.coherent h.coherent
    owned := move.owned allowed h.owned }

theorem Orderly.moves {kind : Act → Prop} (h : p.Orderly) (allowed : ∀ act, kind act → act.orderly)
    (moves : Moves kind p q) : q.Orderly :=
  moves.within (fun p q => p.Orderly → q.Orderly) (fun _ same => same)
    (fun _ _ _ first second same => second (first same))
    (fun act _ _ of move same => same.move (allowed act of) move) h

theorem Orderly.sought {who : Option TxnId} (h : p.Orderly) (moves : Moves (Act.seeks who) p q) :
    q.Orderly := h.moves (fun _ => Act.seeksOrderly) moves

/- What each move does to the two maps. -/

def Room (p : Pool) : Prop := ∀ table, p.Numbered table

theorem Room.before (room : q.Room) (grew : Grew p q) : p.Room :=
  fun table => (room table).before grew

theorem rowsOfSame (tables : q.tables = p.tables) {images images' : PageId → Option Bytes}
    {rid : Rid} (same : images' rid.page = images rid.page) :
    q.rowsOf images' rid = p.rowsOf images rid := by
  simp only [rowsOf, tables, same]

theorem viewResident {page : PageId} {frame : Frame} (present : p.resident.get? page = some frame) :
    p.view? page = some frame.page.image := by
  simp only [view?, present]

theorem viewAbsent {page : PageId} (absent : p.resident.get? page = none) :
    p.view? page = p.image? page := by
  simp only [view?, absent]

theorem Housed.viewExtended (housed : p.Housed) (apart : p.Separate) {table : TableId}
    {file : HeapFile} {storage : Storage} {image : Bytes} (found : p.tables.get? table = some file)
    (extended : p.storage.Extended storage file.volume image) (page : PageId) :
    view? {p with storage} page =
      if table = page.table ∧ page.number.toNat = p.storage.pages file.volume then some image
      else p.view? page := by
  cases present : p.resident.get? page with
  | some frame =>
    refine (viewResident (p := {p with storage}) present).trans ?_
    rw [viewResident present, if_neg]
    -- what is in the cache is no page beyond the end
    rintro ⟨rfl, beyond⟩
    exact absurd beyond (Nat.ne_of_lt (housed.notBeyond found present))
  | none =>
    refine (viewAbsent (p := {p with storage}) present).trans ?_
    rw [viewAbsent present]
    exact imageExtended apart found extended page

theorem Separate.pagesExtended (apart : p.Separate) {table : TableId} {file : HeapFile}
    {storage : Storage} {image : Bytes} (found : p.tables.get? table = some file)
    (extended : p.storage.Extended storage file.volume image) {other : TableId} {its : HeapFile}
    (known : p.tables.get? other = some its) : storage.pages its.volume =
      if table = other then p.storage.pages its.volume + 1 else p.storage.pages its.volume := by
  by_cases own : table = other
  · subst own
    cases found.symm.trans known
    rw [if_pos rfl, extended.pages]
  · rw [if_neg own]
    exact (extended.others _ (apart _ _ _ _ found known own)).2

/- Nothing can be seen to have happened, before or after the cache is lost. -/
structure Quiet (p q : Pool) : Prop where
  rows : q.rows = p.rows
  durable : q.durable = p.durable

theorem Quiet.refl (p : Pool) : Quiet p p := ⟨rfl, rfl⟩

theorem Quiet.trans {r : Pool} (pq : Quiet p q) (qr : Quiet q r) : Quiet p r :=
  ⟨qr.rows.trans pq.rows, qr.durable.trans pq.durable⟩

theorem Quiet.ofPages (tables : q.tables = p.tables) (view : ∀ page, q.view? page = p.view? page)
    (image : ∀ page, q.image? page = p.image? page) : Quiet p q :=
  ⟨funext fun rid => rowsOfSame tables (view rid.page),
    funext fun rid => rowsOfSame tables (image rid.page)⟩

theorem Orderly.extendQuiet (orderly : p.Orderly) {table : TableId} {file : HeapFile}
    {storage : Storage} (found : p.tables.get? table = some file)
    (enlarged : p.storage.Enlarged storage file.volume)
    (few : p.storage.pages file.volume < UInt32.size) : Quiet p {p with storage} := by
  obtain ⟨image, extended, blank⟩ := enlarged.fresh
    (orderly.sized _ _ found ▸ file.layout.sizePositive) few
  have empty := blank (orderly.fills _ _ found)
  subst empty
  have images (page : PageId) : image? {p with storage} page = _ :=
    imageExtended orderly.apart found extended page
  have durable : durable {p with storage} = p.durable := by
    funext rid
    -- where the blank page is now there was none, and neither has a row
    by_cases beyond : table = rid.page.table ∧
        rid.page.number.toNat = p.storage.pages file.volume
    · obtain ⟨rfl, last⟩ := beyond
      simp only [Pool.durable, rowsOf, images, orderly.imageBeyond found last, found, last,
        and_self, if_true, Option.bind_some, Option.bind_none, Layout.rowBlank]
    · exact rowsOfSame rfl ((images rid.page).trans (if_neg beyond))
  refine ⟨?_, durable⟩
  funext rid
  cases present : p.resident.get? rid.page with
  | some frame =>
    exact rowsOfSame rfl ((viewResident (p := {p with storage}) present).trans
      (viewResident (p := p) present).symm)
  | none =>
    have seen := congrFun durable rid
    simp only [Pool.durable, rowsOf] at seen
    simp only [Pool.rows, rowsOf, viewAbsent (p := p) present,
      viewAbsent (p := {p with storage}) present]
    exact seen

/- Every clean page of the cache is what its volume holds, numbers or not. -/
def Mirrored (p : Pool) : Prop :=
  ∀ page frame, p.resident.get? page = some frame → frame.page.dirtiedBy = none →
    p.image? page = some frame.page.image

theorem Sound.mirrored (sound : p.Sound) (apart : p.Separate) (room : p.Room) : p.Mirrored :=
  fun page frame present clean => sound.faithful apart page frame present clean (room page.table)

theorem Move.loadViews {page : PageId} (move : Move (.load page) p q) (other : PageId) :
    q.view? other = p.view? other := by
  cases move with
  | @load _ _ file copy absent space found copied =>
    by_cases own : page = other
    · subst own
      rw [viewAbsent absent]
      have present : (p.resident.insert page ⟨p.nextFrame, copy⟩).get? page = _ :=
        (KeyMap.getInsert ..).trans (if_pos rfl)
      refine (viewResident present).trans ?_
      simp only [image?, found, Option.bind_some]
      exact copied.image.symm
    · simp only [view?, KeyMap.getInsert, if_neg own]
      rfl

theorem Mirrored.lookViews (mirrored : p.Mirrored) (allowed : act.looks) (move : Move act p q)
    (other : PageId) : q.view? other = p.view? other := by
  cases move with
  | aside seen => simp only [view?, imageSeen seen]
  | load absent space found copied => exact (Move.load absent space found copied).loadViews other
  | @evict _ page frame present clean free =>
    have image : (p.drop page).image? other = p.image? other := by
      simp only [image?, dropTables, dropStorage]
    by_cases own : page = other
    · subst own
      rw [viewAbsent ((residentDrop ..).trans (if_pos rfl)), viewResident present, image]
      exact mirrored page frame present clean
    · simp only [view?, residentDrop, if_neg own, image]
  | _ => exact allowed.elim

theorem Sound.lookViews (sound : p.Sound) (apart : p.Separate) (allowed : act.looks)
    (move : Move act p q) (room : p.Room) (other : PageId) : q.view? other = p.view? other :=
  (sound.mirrored apart room).lookViews allowed move other

theorem Orderly.lookQuiet (orderly : p.Orderly) {who : Option TxnId} (allowed : act.seeks who)
    (move : Move act p q) (room : q.Room) : Quiet p q := by
  have before := room.before move.grew
  have views (looks : act.looks) (page : PageId) : q.view? page = p.view? page :=
    orderly.lookViews orderly.apart looks move before page
  cases move with
  | aside seen => exact .ofPages rfl (views trivial) (imageSeen seen)
  | load => exact .ofPages rfl (views trivial) (fun _ => rfl)
  | evict =>
    exact .ofPages (dropTables ..) (views trivial) fun page => by
      simp only [image?, dropTables, dropStorage]
  | take | unprobe => exact .ofPages rfl (fun _ => rfl) (fun _ => rfl)
  | extend found enlarged => exact orderly.extendQuiet found enlarged (before _ _ found)
  | _ => exact allowed.elim

theorem Orderly.looksQuiet (orderly : p.Orderly) {who : Option TxnId}
    (moves : Moves (Act.seeks who) p q) (room : q.Room) : Quiet p q := by
  have whole := moves.within (fun p q => p.Orderly → q.Orderly ∧ Grew p q ∧ (q.Room → Quiet p q))
    (fun p same => ⟨same, .refl p, fun _ => .refl p⟩)
    (fun _ _ _ first second same => by
      obtain ⟨there, grew, quiet⟩ := first same
      obtain ⟨here, further, silent⟩ := second there
      exact ⟨here, grew.trans further,
        fun room => (quiet (room.before further)).trans (silent room)⟩)
    (fun act p q allowed move same => ⟨same.move (Act.seeksOrderly allowed) move, move.grew,
      same.lookQuiet allowed move⟩)
  exact (whole orderly).2.2 room

theorem Orderly.saveRows (orderly : p.Orderly) {page : PageId} (move : Move (.save page) p q) :
    q.rows = p.rows ∧ ∀ rid, q.durable rid =
      if rid.page = page then p.rows rid else p.durable rid := by
  cases move with
  | @save _ _ file frame storage present found stored =>
    have images (other : PageId) : image? {p with
        storage, resident := p.resident.insert page {frame with page := frame.page.markClean}}
        other = _ := imageSaved orderly.apart found stored other
    refine ⟨funext fun rid => rowsOfSame rfl ?_, fun rid => ?_⟩
    · simp only [view?, KeyMap.getInsert, images]
      by_cases own : page = rid.page
      · rw [← own, present]
        simp only [if_true]
        rfl
      · simp only [if_neg own]
    · by_cases own : rid.page = page
      · rw [if_pos own]
        subst own
        exact rowsOfSame rfl
          ((images rid.page).trans ((if_pos rfl).trans (viewResident present).symm))
      · rw [if_neg own]
        exact rowsOfSame rfl ((images rid.page).trans (if_neg fun same => own same.symm))

theorem Orderly.changeRows (orderly : p.Orderly) {page : PageId} {frame frame' : Frame}
    {slot : UInt32} {row : Option Bytes} (present : p.resident.get? page = some frame)
    (change : ∀ s : UInt32, frame.page.layout.row? frame'.page.image s.toNat =
      if slot = s then row else frame.page.layout.row? frame.page.image s.toNat) :
    rows {p with resident := p.resident.insert page frame'} = p.rows.set ⟨page, slot⟩ row := by
  funext rid
  obtain ⟨other, s⟩ := rid
  by_cases own : page = other
  · subst own
    obtain ⟨file, found, _, layout, _⟩ := orderly.keeps page frame present
    have seen : view? {p with resident := p.resident.insert page frame'} page =
        some frame'.page.image := viewResident ((KeyMap.getInsert ..).trans (if_pos rfl))
    simp only [Rows.set, Pool.rows, rowsOf, found, Option.bind_some, seen, viewResident present,
      ← layout, change, Rid.mk.injEq, true_and]
    by_cases here : slot = s
    · simp only [here, if_true]
    · have there : ¬ s = slot := fun same => here same.symm
      simp only [here, there, if_false]
  · have away : ¬ (⟨other, s⟩ : Rid) = ⟨page, slot⟩ := fun same =>
      own (congrArg Rid.page same).symm
    simp only [Rows.set, if_neg away]
    refine rowsOfSame rfl ?_
    simp only [view?, KeyMap.getInsert, if_neg own]
    rfl

/- A change of one place on a page that its maker has to himself, not written yet. -/
structure Changed (p q : Pool) (maker : TxnId) (rid : Rid) (row : Option Bytes) : Prop where
  orderly : q.Orderly
  grew : Grew p q
  owns : p.locks.access? maker rid.page = some .exclusive
  locks : q.locks = p.locks
  rows : q.rows = p.rows.set rid row
  durable : q.durable = p.durable

theorem Orderly.filled (orderly : p.Orderly) {txn : TxnId} {rid : Rid} {data : Bytes}
    (move : Move (.fill txn rid data) p q) : Changed p q txn rid (some data) := by
  have there := orderly.move (by trivial) move
  have grew := move.grew
  cases move with
  | @fill _ _ _ _ frame copy owns present filled =>
    obtain ⟨slot, same, inserted⟩ := Page.insertSource filled
    obtain ⟨home, number⟩ := rid
    cases same
    refine ⟨there, grew, owns, rfl, ?_, rfl⟩
    refine orderly.changeRows present fun s => (inserted.row s.toNat).trans ?_
    obtain ⟨file, found, _, layout, _⟩ := orderly.keeps _ frame present
    have few : slot < UInt32.size := Nat.lt_of_lt_of_le inserted.inRange (by
      rw [Page.slots, layout]
      exact orderly.slots _ _ found)
    have here : slot = s.toNat ↔ UInt32.ofNat slot = s := by
      constructor
      · rintro rfl
        exact UInt32.ofNat_toNat
      · rintro rfl
        exact (UInt32.toNat_ofNat_of_lt few).symm
    simp only [here]

theorem Orderly.cleared (orderly : p.Orderly) {txn : TxnId} {rid : Rid}
    (move : Move (.clear txn rid) p q) : Changed p q txn rid none := by
  have there := orderly.move (by trivial) move
  have grew := move.grew
  cases move with
  | @clear _ _ _ frame copy owns present cleared =>
    obtain ⟨slot, same, deleted⟩ := Page.deleteSource cleared
    obtain ⟨home, number⟩ := rid
    cases same
    refine ⟨there, grew, owns, rfl, ?_, rfl⟩
    refine orderly.changeRows present fun s => (deleted.row s.toNat).trans ?_
    simp only [UInt32.toNat_inj]

end Pool
end PagedHeap
