import Mathlib.Logic.Relation
import PagedHeap.Pool.Placement
import PagedHeap.Proofs.LockLaws
import PagedHeap.Proofs.VolumeCalls

/-! All that can become of a pool, one move at a time. Whatever is kept by every move is
kept by all work on a pool: here the house rules of the cache, which hold whatever the
volumes do, and that a clean page is what its volume holds, as long as there are numbers
for all pages. -/
namespace PagedHeap

inductive Act where
  | aside
  | load (page : PageId)
  | evict (page : PageId)
  | forget (page : PageId)
  | save (page : PageId)
  | extend (table : TableId)
  | take (wanted : Lock)
  | unprobe (txn : TxnId) (page : PageId)
  | giveBack (txn : TxnId) (page : PageId)
  | giveAll (txn : TxnId)
  | fill (txn : TxnId) (rid : Rid) (data : Bytes)
  | clear (txn : TxnId) (rid : Rid)
  | register (file : HeapFile)

namespace Pool

open Storage (Observed Follows ChangedAt Stored Extended Enlarged Apart)

/- The pages of the file have the length its layout tells. -/
def Suits (p : Pool) (file : HeapFile) : Prop :=
  p.storage.pageSize file.volume = file.layout.pageSize

/- Besides, it shares its pages with no table that is there. -/
def Fits (p : Pool) (file : HeapFile) : Prop :=
  p.Suits file ∧
    ∀ table other, p.tables.get? table = some other → p.storage.Apart file.volume other.volume

inductive Move : Act → Pool → Pool → Prop
  | aside {p : Pool} {storage draws} (seen : p.storage.Observed storage) :
      Move .aside p {p with storage, draws}
  | load {p : Pool} {page file copy} (absent : p.resident.get? page = none)
      (space : p.resident.size < p.capacity) (found : p.tables.get? page.table = some file)
      (copied : file.Copied p.storage page copy) :
      Move (.load page) p {p with
        resident := p.resident.insert page ⟨p.nextFrame, copy⟩
        nextFrame := p.nextFrame + 1}
  | evict {p : Pool} {page frame} (present : p.resident.get? page = some frame)
      (clean : frame.page.dirtiedBy = none) (free : p.locks.isOwned page = false) :
      Move (.evict page) p (p.drop page)
  | forget {p : Pool} {page} : Move (.forget page) p (p.drop page)
  | save {p : Pool} {page file frame storage} (present : p.resident.get? page = some frame)
      (found : p.tables.get? page.table = some file)
      (stored : p.storage.Stored storage file.volume page.number frame.page.image) :
      Move (.save page) p {p with
        storage
        resident := p.resident.insert page {frame with page := frame.page.markClean}}
  | extend {p : Pool} {table file storage} (found : p.tables.get? table = some file)
      (enlarged : p.storage.Enlarged storage file.volume) : Move (.extend table) p {p with storage}
  | take {p : Pool} {wanted} (granted : (p.locks.request wanted).1 = true) :
      Move (.take wanted) p {p with locks := (p.locks.request wanted).2}
  | unprobe {p : Pool} {txn page} (shared : p.locks.access? txn page = some .shared) :
      Move (.unprobe txn page) p {p with locks := p.locks.release txn page}
  | giveBack {p : Pool} {txn page} :
      Move (.giveBack txn page) p {p with locks := p.locks.release txn page}
  | giveAll {p : Pool} {txn} : Move (.giveAll txn) p {p with locks := (p.locks.releaseAll txn).2}
  | fill {p : Pool} {txn rid data frame page}
      (owns : p.locks.access? txn rid.page = some .exclusive)
      (present : p.resident.get? rid.page = some frame)
      (filled : frame.page.insert data = .ok (rid, page)) :
      Move (.fill txn rid data) p
        {p with resident := p.resident.insert rid.page {frame with page := page.markDirty txn}}
  | clear {p : Pool} {txn rid frame page} (owns : p.locks.access? txn rid.page = some .exclusive)
      (present : p.resident.get? rid.page = some frame)
      (cleared : frame.page.delete (some rid) = .ok page) :
      Move (.clear txn rid) p
        {p with resident := p.resident.insert rid.page {frame with page := page.markDirty txn}}
  | register {p : Pool} {file} (fresh : p.tables.get? file.table = none) (suits : p.Suits file) :
      Move (.register file) p {p with tables := p.tables.insert file.table file}

def Moves (kind : Act → Prop) : Pool → Pool → Prop :=
  Relation.ReflTransGen fun p q => ∃ act, kind act ∧ Move act p q

namespace Moves

variable {kind kind' : Act → Prop} {p q r : Pool}

theorem refl : Moves kind p p := Relation.ReflTransGen.refl

theorem one {act : Act} (allowed : kind act) (move : Move act p q) : Moves kind p q :=
  .single ⟨act, allowed, move⟩

theorem trans (pq : Moves kind p q) (qr : Moves kind q r) : Moves kind p r :=
  Relation.ReflTransGen.trans pq qr

theorem mono (moves : Moves kind p q) (wider : ∀ act, kind act → kind' act) : Moves kind' p q :=
  moves.lift id fun _ _ ⟨act, allowed, move⟩ => ⟨act, wider act allowed, move⟩

theorem within (relation : Pool → Pool → Prop) (moves : Moves kind p q)
    (still : ∀ p, relation p p) (join : ∀ p q r, relation p q → relation q r → relation p r)
    (each : ∀ act p q, kind act → Move act p q → relation p q) : relation p q := by
  induction moves with
  | refl => exact still p
  | tail _ last ih =>
    obtain ⟨act, allowed, move⟩ := last
    exact join _ _ _ ih (each act _ _ allowed move)

end Moves

/- The house rules. -/

def Keeps (p : Pool) (page : PageId) (frame : Frame) : Prop :=
  ∃ file, p.tables.get? page.table = some file ∧ frame.page.id = page ∧
    frame.page.layout = file.layout ∧ page.number.toNat < p.storage.pages file.volume

structure Housed (p : Pool) : Prop where
  named : ∀ table file, p.tables.get? table = some file → file.table = table
  sized : ∀ table file, p.tables.get? table = some file →
    p.storage.pageSize file.volume = file.layout.pageSize
  bounded : p.resident.size ≤ p.capacity
  keeps : ∀ page frame, p.resident.get? page = some frame → p.Keeps page frame

/- Tables stay, their volumes do not shrink, and the cache is as large as ever. -/
structure Grew (p q : Pool) : Prop where
  capacity : q.capacity = p.capacity
  tables : ∀ table file, p.tables.get? table = some file → q.tables.get? table = some file
  storage : p.storage.Follows q.storage

theorem Grew.refl (p : Pool) : Grew p p := ⟨rfl, fun _ _ found => found, .refl _⟩

theorem Grew.trans {p q r : Pool} (pq : Grew p q) (qr : Grew q r) : Grew p r :=
  ⟨qr.capacity.trans pq.capacity,
    fun table file found => qr.tables table file (pq.tables table file found),
    pq.storage.trans qr.storage⟩

theorem Grew.ofTables {p q : Pool} (capacity : q.capacity = p.capacity)
    (tables : q.tables = p.tables) (storage : p.storage.Follows q.storage) : Grew p q :=
  ⟨capacity, fun _ _ found => tables ▸ found, storage⟩

theorem Move.grew {act : Act} {p q : Pool} (move : Move act p q) : Grew p q := by
  cases move with
  | aside seen => exact .ofTables rfl rfl seen.follows
  | save _ _ stored => exact .ofTables rfl rfl stored.toFollows
  | extend _ enlarged => exact .ofTables rfl rfl enlarged.toFollows
  | evict | forget =>
    unfold drop
    split
    · exact .ofTables rfl rfl (.refl _)
    · exact .refl _
  | @register _ file fresh =>
    refine ⟨rfl, fun table other found => ?_, .refl _⟩
    have other : ¬ file.table = table := fun same => by
      rw [same, found] at fresh
      cases fresh
    rw [KeyMap.getInsert, if_neg other]
    exact found
  | load | take | unprobe | giveBack | giveAll | fill | clear => exact .ofTables rfl rfl (.refl _)

theorem Moves.grew {kind : Act → Prop} {p q : Pool} (moves : Moves kind p q) : Grew p q :=
  moves.within Grew .refl (fun _ _ _ => .trans) fun _ _ _ _ move => move.grew

theorem Keeps.later {p q : Pool} {page : PageId} {frame : Frame} (keeps : p.Keeps page frame)
    (grew : Grew p q) : q.Keeps page frame := by
  obtain ⟨file, found, key, layout, inside⟩ := keeps
  exact ⟨file, grew.tables _ _ found, key, layout,
    Nat.lt_of_lt_of_le inside (grew.storage.grown _)⟩

theorem Keeps.changed {p : Pool} {page : PageId} {frame other : Frame}
    (keeps : p.Keeps page frame) (key : other.page.id = frame.page.id)
    (layout : other.page.layout = frame.page.layout) : p.Keeps page other := by
  obtain ⟨file, found, own, same, inside⟩ := keeps
  exact ⟨file, found, key.trans own, layout.trans same, inside⟩

theorem residentDrop (p : Pool) (page other : PageId) :
    (p.drop page).resident.get? other =
      if page = other then none else p.resident.get? other := by
  unfold drop
  split
  · exact KeyMap.getErase ..
  · rename_i absent
    split
    · rename_i same
      exact same ▸ absent
    · rfl

theorem sizeDrop (p : Pool) (page : PageId) : (p.drop page).resident.size ≤ p.resident.size := by
  unfold drop
  split
  · exact KeyMap.sizeEraseLe ..
  · exact Nat.le_refl _

@[simp] theorem dropTables (p : Pool) (page : PageId) : (p.drop page).tables = p.tables := by
  unfold drop
  split <;> rfl

@[simp] theorem dropStorage (p : Pool) (page : PageId) : (p.drop page).storage = p.storage := by
  unfold drop
  split <;> rfl

@[simp] theorem dropLocks (p : Pool) (page : PageId) : (p.drop page).locks = p.locks := by
  unfold drop
  split <;> rfl

@[simp] theorem dropCapacity (p : Pool) (page : PageId) : (p.drop page).capacity = p.capacity := by
  unfold drop
  split <;> rfl

namespace Housed

variable {p q : Pool}

theorem carry (h : p.Housed) (tables : q.tables = p.tables)
    (storage : p.storage.Follows q.storage) (bounded : q.resident.size ≤ q.capacity)
    (keeps : ∀ page frame, q.resident.get? page = some frame → q.Keeps page frame) : q.Housed := by
  refine ⟨fun table file found => ?_, fun table file found => ?_, bounded, keeps⟩
  · exact h.named table file (tables ▸ found)
  · exact (storage.size file.volume).trans (h.sized table file (tables ▸ found))

theorem put (h : p.Housed) {page : PageId} {frame : Frame} {storage : Storage}
    {nextFrame : FrameId} (follows : p.storage.Follows storage)
    (space : p.resident.contains page = true ∨ p.resident.size < p.capacity)
    (keeps : p.Keeps page frame) :
    Housed {p with storage, nextFrame, resident := p.resident.insert page frame} := by
  refine h.carry rfl follows ?_ fun other found present => ?_
  · rw [KeyMap.sizeInsert]
    split
    · exact h.bounded
    · rename_i absent
      exact space.resolve_left absent
  · have grew : Grew p {p with storage, nextFrame, resident := p.resident.insert page frame} :=
      .ofTables rfl rfl follows
    rw [KeyMap.getInsert] at present
    split at present
    · rename_i same
      cases present
      exact same ▸ keeps.later grew
    · exact (h.keeps other found present).later grew

theorem drop (h : p.Housed) (page : PageId) : (p.drop page).Housed := by
  refine h.carry (p.dropTables page) (by rw [dropStorage]; exact .refl _) ?_ fun other found => ?_
  · rw [dropCapacity]
    exact Nat.le_trans (p.sizeDrop page) h.bounded
  · rw [residentDrop]
    intro present
    split at present
    · cases present
    · exact (h.keeps other found present).later
        (.ofTables (p.dropCapacity page) (p.dropTables page) (by rw [dropStorage]; exact .refl _))

theorem locks (h : p.Housed) (locks : LockTable) : Housed {p with locks} :=
  h.carry rfl (.refl _) h.bounded fun page frame present =>
    (h.keeps page frame present).later (.ofTables rfl rfl (.refl _))

theorem move {act : Act} (h : p.Housed) (move : Move act p q) : q.Housed := by
  cases move with
  | aside seen =>
    exact h.carry rfl seen.follows h.bounded fun page frame present =>
      (h.keeps page frame present).later (.ofTables rfl rfl seen.follows)
  | @load _ page file copy absent space found copied =>
    exact h.put (.refl _) (.inr space) ⟨file, found, copied.key, copied.layout,
      Storage.pageBound (h.sized _ _ found ▸ file.layout.sizePositive) copied.image⟩
  | evict | forget => exact h.drop _
  | @save _ page file frame storage present found stored =>
    exact h.put stored.toFollows (.inl (by simp [KeyMap.contains, present]))
      ((h.keeps page frame present).changed rfl rfl)
  | extend found enlarged =>
    exact h.carry rfl enlarged.toFollows h.bounded fun page frame present =>
      (h.keeps page frame present).later (.ofTables rfl rfl enlarged.toFollows)
  | take | unprobe | giveBack | giveAll => exact h.locks _
  | @fill _ txn rid data frame page owns present filled =>
    obtain ⟨slot, same, inserted⟩ := Page.insertSource filled
    exact h.put (.refl _) (.inl (by simp [KeyMap.contains, present]))
      ((h.keeps rid.page frame present).changed inserted.sameId inserted.sameLayout)
  | @clear _ txn rid frame page owns present cleared =>
    obtain ⟨slot, same, deleted⟩ := Page.deleteSource cleared
    exact h.put (.refl _) (.inl (by simp [KeyMap.contains, present]))
      ((h.keeps rid.page frame present).changed deleted.sameId deleted.sameLayout)
  | @register _ file fresh suits =>
    refine ⟨fun table other => ?_, fun table other => ?_, h.bounded, fun page frame present => ?_⟩
    · simp only [KeyMap.getInsert]
      split
      · rename_i same
        exact fun found => Option.some.inj found ▸ same
      · exact h.named table other
    · exact fun found =>
        (KeyMap.insertSource found).elim (fun new => new ▸ suits) (h.sized table other)
    · exact (h.keeps page frame present).later (Move.register fresh suits).grew

theorem moves {kind : Act → Prop} (h : p.Housed) (moves : Moves kind p q) : q.Housed :=
  moves.within (fun p q => p.Housed → q.Housed) (fun _ same => same)
    (fun _ _ _ first second same => second (first same)) (fun _ _ _ _ move same => same.move move) h

end Housed

/- Tables on volumes of their own. -/

/- No two tables share a volume. -/
def Separate (p : Pool) : Prop :=
  ∀ a b f g, p.tables.get? a = some f → p.tables.get? b = some g → a ≠ b →
    p.storage.Apart f.volume g.volume

namespace Separate

variable {p q : Pool}

theorem before (apart : q.Separate) (grew : Grew p q) : p.Separate := fun a b f g left right away =>
  grew.storage.wereApart
    (apart a b f g (grew.tables a f left) (grew.tables b g right) away)

theorem carry (apart : p.Separate) (tables : q.tables = p.tables)
    (storage : p.storage.Follows q.storage) : q.Separate := by
  intro a b f g left right away
  rw [tables] at left right
  exact storage.apart (apart a b f g left right away)

theorem register (apart : p.Separate) {file : HeapFile} (fits : p.Fits file) :
    Separate {p with tables := p.tables.insert file.table file} := by
  intro a b f g
  simp only [KeyMap.getInsert]
  intro left right away
  split at left <;> split at right
  · rename_i here there
    exact absurd (here.symm.trans there) away
  · exact Option.some.inj left ▸ fits.2 b g right
  · exact Option.some.inj right ▸ (fits.2 a f left).symm
  · exact apart a b f g left right away

theorem move {act : Act} (apart : p.Separate) (old : ∀ file, act ≠ .register file)
    (move : Move act p q) : q.Separate := by
  have grew := move.grew.storage
  cases move with
  | evict | forget => exact apart.carry (dropTables ..) grew
  | @register _ file => exact absurd rfl (old file)
  | _ => exact apart.carry rfl grew

theorem moves {kind : Act → Prop} (apart : p.Separate)
    (old : ∀ act, kind act → ∀ file, act ≠ .register file) (moves : Moves kind p q) :
    q.Separate :=
  moves.within (fun p q => p.Separate → q.Separate) (fun _ same => same)
    (fun _ _ _ first second same => second (first same))
    (fun act _ _ of move same => same.move (old act of) move) apart

end Separate

/- Clean pages. -/

def image? (p : Pool) (page : PageId) : Option Bytes :=
  (p.tables.get? page.table).bind fun file => p.storage.page? file.volume page.number.toNat

/- The pages of a table can be counted in words. -/
def Numbered (p : Pool) (table : TableId) : Prop :=
  ∀ file, p.tables.get? table = some file → p.storage.pages file.volume < UInt32.size

theorem Numbered.before {p q : Pool} {table : TableId} (numbered : q.Numbered table)
    (grew : Grew p q) : p.Numbered table := fun file found =>
  Nat.lt_of_le_of_lt (grew.storage.grown file.volume) (numbered file (grew.tables table file found))

def Faithful (p : Pool) : Prop :=
  ∀ page frame, p.resident.get? page = some frame → frame.page.dirtiedBy = none →
    p.Numbered page.table → p.image? page = some frame.page.image

section images

variable {p : Pool} {file : HeapFile} {storage : Storage} {resident : KeyMap PageId Frame}

theorem imageSeen {draws : List Nat} (seen : p.storage.Observed storage) (page : PageId) :
    image? {p with storage, draws} page = p.image? page := by
  simp only [image?, seen.page?]

theorem imageElsewhere (apart : p.Separate) {table : TableId}
    (found : p.tables.get? table = some file) (changed : ChangedAt p.storage storage file.volume)
    {page : PageId} (away : table ≠ page.table) :
    image? {p with storage, resident} page = p.image? page := by
  simp only [image?]
  cases there : p.tables.get? page.table with
  | none => rfl
  | some other =>
    exact (changed.others _ (apart _ _ _ _ found there away)).1 _

theorem imageSaved (apart : p.Separate) {home : PageId} {image : Bytes}
    (found : p.tables.get? home.table = some file)
    (stored : Stored p.storage storage file.volume home.number image) (page : PageId) :
    image? {p with storage, resident} page =
      if home = page then some image else p.image? page := by
  by_cases away : home.table = page.table
  · rw [away] at found
    simp only [image?, found, Option.bind_some, stored.page]
    have same : page.number.toNat = home.number.toNat ↔ home = page := by
      rw [UInt32.toNat_inj]
      constructor
      · intro number
        cases home
        cases page
        exact congrArg₂ PageId.mk away number.symm
      · rintro rfl
        rfl
    simp only [same]
  · have other : ¬ home = page := fun same => away (congrArg PageId.table same)
    rw [imageElsewhere apart found stored.toChangedAt away, if_neg other]

theorem imageExtended (apart : p.Separate) {table : TableId} {image : Bytes}
    (found : p.tables.get? table = some file)
    (extended : Extended p.storage storage file.volume image) (page : PageId) :
    image? {p with storage, resident} page =
      if table = page.table ∧ page.number.toNat = p.storage.pages file.volume then some image
      else p.image? page := by
  by_cases away : table = page.table
  · rw [away] at found
    simp only [image?, found, Option.bind_some, extended.page, away, true_and]
  · rw [imageElsewhere apart found extended.toChangedAt away, if_neg fun own => away own.1]

end images

theorem Housed.imageBeyond {p : Pool} (housed : p.Housed) {file : HeapFile} {page : PageId}
    (found : p.tables.get? page.table = some file)
    (beyond : page.number.toNat = p.storage.pages file.volume) : p.image? page = none := by
  simp only [image?, found, Option.bind_some]
  cases there : p.storage.page? file.volume page.number.toNat with
  | none => rfl
  | some image =>
    have inside := Storage.pageBound (housed.sized _ _ found ▸ file.layout.sizePositive) there
    exact absurd beyond (Nat.ne_of_lt inside)

theorem Housed.notBeyond {p : Pool} (housed : p.Housed) {file : HeapFile} {page : PageId}
    {frame : Frame} (found : p.tables.get? page.table = some file)
    (present : p.resident.get? page = some frame) :
    page.number.toNat < p.storage.pages file.volume := by
  obtain ⟨other, same, _, _, inside⟩ := housed.keeps page frame present
  rw [found] at same
  exact Option.some.inj same ▸ inside

theorem Housed.imageKept {p : Pool} (housed : p.Housed) (apart : p.Separate) {table : TableId}
    {file : HeapFile} {storage : Storage} {page : PageId} {frame : Frame}
    (found : p.tables.get? table = some file)
    (enlarged : p.storage.Enlarged storage file.volume)
    (few : p.storage.pages file.volume < UInt32.size)
    (present : p.resident.get? page = some frame) :
    image? {p with storage} page = p.image? page := by
  obtain ⟨image, extended, _⟩ := enlarged.fresh
    (housed.sized _ _ found ▸ file.layout.sizePositive) few
  rw [imageExtended apart found extended, if_neg]
  rintro ⟨rfl, last⟩
  exact absurd last (Nat.ne_of_lt (housed.notBeyond found present))

namespace Faithful

variable {p q : Pool}

theorem carry (h : p.Faithful) (grew : Grew p q) (image : ∀ page, q.image? page = p.image? page)
    (resident : ∀ page frame, q.resident.get? page = some frame → frame.page.dirtiedBy = none →
      p.resident.get? page = some frame) : q.Faithful := by
  intro page frame present clean numbered
  rw [image]
  exact h page frame (resident page frame present clean) clean (numbered.before grew)

theorem extend (h : p.Faithful) (housed : p.Housed) (apart : p.Separate) {table : TableId}
    {file : HeapFile} {storage : Storage} (found : p.tables.get? table = some file)
    (enlarged : p.storage.Enlarged storage file.volume) : Faithful {p with storage} := by
  have grew : Grew p {p with storage} := (Move.extend found enlarged).grew
  intro page frame present clean numbered
  have before := numbered.before grew
  by_cases own : table = page.table
  · exact (housed.imageKept apart found enlarged (before file (own ▸ found)) present).trans
      (h page frame present clean before)
  · exact (imageElsewhere apart found enlarged.toChangedAt own).trans
      (h page frame present clean before)

theorem register (h : p.Faithful) (housed : p.Housed) {file : HeapFile}
    (fresh : p.tables.get? file.table = none) (suits : p.Suits file) :
    Faithful {p with tables := p.tables.insert file.table file} := by
  intro page frame present clean numbered
  have other : ¬ file.table = page.table := fun same => by
    obtain ⟨_, found, _⟩ := housed.keeps page frame present
    rw [← same, fresh] at found
    cases found
  simp only [image?, KeyMap.getInsert, if_neg other]
  exact h page frame present clean (numbered.before (Move.register fresh suits).grew)

theorem move {act : Act} (h : p.Faithful) (housed : p.Housed) (apart : q.Separate)
    (move : Move act p q) : q.Faithful := by
  have grew := move.grew
  have separate := apart.before grew
  cases move with
  | aside seen => exact h.carry grew (imageSeen seen) fun _ _ present _ => present
  | @load _ page file copy absent space found copied =>
    intro other held present clean numbered
    rw [KeyMap.getInsert] at present
    split at present
    · rename_i same
      cases present
      subst same
      simp only [image?, found, Option.bind_some]
      exact copied.image
    · exact h other held present clean (numbered.before grew)
  | evict | forget =>
    refine h.carry grew (fun page => by simp only [image?, dropTables, dropStorage]) ?_
    intro page frame present _
    rw [residentDrop] at present
    split at present
    · cases present
    · exact present
  | @save _ page file frame storage present found stored =>
    intro other held there clean numbered
    rw [imageSaved separate found stored]
    rw [KeyMap.getInsert] at there
    split at there
    · rename_i same
      cases there
      rw [if_pos same]
      rfl
    · rename_i away
      rw [if_neg away]
      exact h other held there clean (numbered.before grew)
  | extend found enlarged => exact h.extend housed separate found enlarged
  | take | unprobe | giveBack | giveAll =>
    exact h.carry grew (fun _ => rfl) fun _ _ present _ => present
  | fill | clear =>
    refine h.carry grew (fun _ => rfl) fun page frame present clean => ?_
    rw [KeyMap.getInsert] at present
    split at present
    · cases present
      cases clean
    · exact present
  | register fresh suits => exact h.register housed fresh suits

end Faithful

/- While tables are on volumes of their own, a clean page is what its volume holds. -/
structure Sound (p : Pool) : Prop extends Housed p where
  faithful : p.Separate → p.Faithful

theorem Sound.move {act : Act} {p q : Pool} (sound : p.Sound) (move : Move act p q) : q.Sound :=
  ⟨sound.toHoused.move move, fun apart =>
    (sound.faithful (apart.before move.grew)).move sound.toHoused apart move⟩

theorem Sound.moves {kind : Act → Prop} {p q : Pool} (sound : p.Sound) (moves : Moves kind p q) :
    q.Sound :=
  moves.within (fun p q => p.Sound → q.Sound) (fun _ same => same)
    (fun _ _ _ first second same => second (first same)) (fun _ _ _ _ move same => same.move move)
    sound

end Pool
end PagedHeap
