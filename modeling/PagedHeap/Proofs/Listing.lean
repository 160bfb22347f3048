import Mathlib.Data.List.Sort
import PagedHeap.Proofs.Rows

/-! Lists of records that say all there is in a table. Pages are listed one after the other,
and slots within a page, so the places ascend; and a list of all pages leaves nothing out. -/
namespace PagedHeap

namespace Rows

/- Each record of a table once, in the order of the places, and nothing else. -/
structure Listed (rows : Rows) (table : TableId) (records : List Record) : Prop where
  ascending : records.Pairwise fun a b => ∃ x y, a.rid = some x ∧ b.rid = some y ∧ x < y
  exact : ∀ record, record ∈ records ↔
    ∃ rid, rid.page.table = table ∧ record.rid = some rid ∧ rows rid = some record.data

theorem Listed.congr {rows rows' : Rows} {table : TableId} {records : List Record}
    (h : rows.Listed table records)
    (same : ∀ rid : Rid, rid.page.table = table → rows rid = rows' rid) :
    rows'.Listed table records := by
  refine ⟨h.ascending, fun record => (h.exact record).trans ?_⟩
  constructor <;> rintro ⟨rid, home, place, held⟩
  · exact ⟨rid, home, place, same rid home ▸ held⟩
  · exact ⟨rid, home, place, (same rid home).trans held⟩

theorem Listed.unique {rows : Rows} {table : TableId} {records records' : List Record}
    (h : rows.Listed table records) (h' : rows.Listed table records') : records = records' := by
  have forward {a b : Record} (before : ∃ x y, a.rid = some x ∧ b.rid = some y ∧ x < y) :
      ¬ ∃ x y, b.rid = some x ∧ a.rid = some y ∧ x < y := by
    rintro ⟨z, w, later, early, behind⟩
    obtain ⟨x, y, first, second, ahead⟩ := before
    cases first.symm.trans early
    cases second.symm.trans later
    exact Rid.irrefl _ (Rid.trans ahead behind)
  have antisymm : Std.Antisymm fun a b : Record =>
      ∃ x y, a.rid = some x ∧ b.rid = some y ∧ x < y :=
    ⟨fun _ _ ahead behind => absurd behind (forward ahead)⟩
  have irrefl : Std.Irrefl fun a b : Record =>
      ∃ x y, a.rid = some x ∧ b.rid = some y ∧ x < y := ⟨fun _ same => forward same same⟩
  exact h.ascending.eq_of_mem_iff h'.ascending fun record =>
    (h.exact record).trans (h'.exact record).symm

def onPage (rows : Rows) (page : PageId) (slots : Nat) : List Record :=
  (List.range slots).filterMap fun slot =>
    (rows ⟨page, .ofNat slot⟩).map fun data => ⟨some ⟨page, .ofNat slot⟩, data⟩

def onPages (rows : Rows) (table : TableId) (slots first count : Nat) : List Record :=
  (List.range' first count).flatMap fun number => rows.onPage ⟨table, .ofNat number⟩ slots

theorem onPageSame {rows rows' : Rows} {page : PageId} {slots : Nat}
    (same : ∀ slot, rows ⟨page, slot⟩ = rows' ⟨page, slot⟩) :
    rows.onPage page slots = rows'.onPage page slots := by
  simp only [onPage, same]

theorem memOnPage {rows : Rows} {page : PageId} {slots : Nat} {record : Record} :
    record ∈ rows.onPage page slots ↔ ∃ slot < slots,
      record.rid = some ⟨page, .ofNat slot⟩ ∧ rows ⟨page, .ofNat slot⟩ = some record.data := by
  simp only [onPage, List.mem_filterMap, List.mem_range, Option.map_eq_some_iff]
  constructor
  · rintro ⟨slot, inside, data, found, rfl⟩
    exact ⟨slot, inside, rfl, found⟩
  · rintro ⟨slot, inside, place, found⟩
    obtain ⟨rid, data⟩ := record
    cases place
    exact ⟨slot, inside, data, found, rfl⟩

theorem memOnPages {rows : Rows} {table : TableId} {slots first count : Nat} {record : Record} :
    record ∈ rows.onPages table slots first count ↔ ∃ number, first ≤ number ∧
      number < first + count ∧ ∃ slot < slots,
        record.rid = some ⟨⟨table, .ofNat number⟩, .ofNat slot⟩ ∧
        rows ⟨⟨table, .ofNat number⟩, .ofNat slot⟩ = some record.data := by
  simp only [onPages, List.mem_flatMap, memOnPage, List.mem_range'_1, and_assoc]

theorem wordLt {a b : Nat} (before : a < b) (inside : b < UInt32.size) :
    UInt32.ofNat a < UInt32.ofNat b := by
  rw [UInt32.lt_iff_toNat_lt, UInt32.toNat_ofNat_of_lt' (Nat.lt_trans before inside),
    UInt32.toNat_ofNat_of_lt' inside]
  exact before

theorem wordNext {n : UInt32} (small : n.toNat + 1 < UInt32.size) :
    (n + 1).toNat = n.toNat + 1 := by
  rw [UInt32.toNat_add]
  exact Nat.mod_eq_of_lt small

theorem listedPages {rows : Rows} {table : TableId} {slots stop : Nat}
    (fewSlots : slots ≤ UInt32.size) (fewPages : stop ≤ UInt32.size)
    (complete : ∀ rid data, rid.page.table = table → rows rid = some data →
      rid.page.number.toNat < stop ∧ rid.slot.toNat < slots) :
    rows.Listed table (rows.onPages table slots 0 stop) := by
  refine ⟨List.pairwise_flatMap.mpr ⟨fun number _ => ?_, ?_⟩, fun record => ?_⟩
  · refine List.pairwise_filterMap.mpr (List.Pairwise.imp_of_mem ?_ List.pairwise_lt_range)
    rintro a b _ inside before x found y there
    obtain ⟨_, _, rfl⟩ := Option.map_eq_some_iff.mp found
    obtain ⟨_, _, rfl⟩ := Option.map_eq_some_iff.mp there
    exact ⟨_, _, rfl, rfl, .inr ⟨rfl, wordLt before
      (Nat.lt_of_lt_of_le (List.mem_range.mp inside) fewSlots)⟩⟩
  · refine List.Pairwise.imp_of_mem ?_ List.pairwise_lt_range'
    rintro a b _ inside before x found y there
    obtain ⟨_, _, placed, _⟩ := memOnPage.mp found
    obtain ⟨_, _, placed', _⟩ := memOnPage.mp there
    have bound : b < UInt32.size := by
      have last := (List.mem_range'_1.mp inside).2
      omega
    exact ⟨_, _, placed, placed', .inl (.inr ⟨rfl, wordLt before bound⟩)⟩
  · rw [memOnPages]
    constructor
    · rintro ⟨number, _, _, slot, _, place, found⟩
      exact ⟨_, rfl, place, found⟩
    · rintro ⟨rid, rfl, place, found⟩
      obtain ⟨page, slot⟩ := complete rid _ rfl found
      refine ⟨rid.page.number.toNat, Nat.zero_le _, by omega, rid.slot.toNat, slot, ?_⟩
      simp only [UInt32.ofNat_toNat]
      exact ⟨place, found⟩

end Rows

namespace Page

theorem recordsOnPage (p : Page) {rows : Rows} (fewSlots : p.slots ≤ UInt32.size)
    (seen : ∀ slot : UInt32, rows ⟨p.id, slot⟩ = p.layout.row? p.image slot.toNat) :
    p.records = rows.onPage p.id p.slots := by
  unfold records Rows.onPage
  refine List.filterMap_congr fun slot inside => ?_
  have bound := Nat.lt_of_lt_of_le (List.mem_range.mp inside) fewSlots
  rw [seen, UInt32.toNat_ofNat_of_lt' bound, rowOf, get?]
  split <;> rfl

end Page

namespace HeapFile

/- The records of one page as they are read from the volume alone. -/
def decodePage (f : HeapFile) (s : Storage) (number : UInt32) : List Record :=
  match s.image f.volume number with
  | .error _ => []
  | .ok image => match Page.ofImage ⟨f.table, number⟩ f.layout image with
    | .error _ => []
    | .ok page => page.records

def decode (f : HeapFile) (s : Storage) : List Record :=
  (List.range (s.pageCount f.volume).toNat).flatMap fun number => f.decodePage s (.ofNat number)

end HeapFile

namespace Pool

variable {p : Pool} {file : HeapFile}

theorem rowsComplete {images : PageId → Option Bytes} {rid : Rid} {data : Bytes}
    (found : p.tables.get? rid.page.table = some file) (held : p.rowsOf images rid = some data) :
    (∃ image, images rid.page = some image) ∧ rid.slot.toNat < file.layout.slots := by
  simp only [rowsOf, found, Option.bind_some, Option.bind_eq_some_iff] at held
  obtain ⟨image, seen, row⟩ := held
  refine ⟨⟨image, seen⟩, ?_⟩
  unfold Layout.row? at row
  split at row
  · rename_i used
    exact used.2.1
  · cases row

theorem imageInside (housed : p.Housed) {page : PageId} {image : Bytes}
    (found : p.tables.get? page.table = some file) (held : p.image? page = some image) :
    page.number.toNat < p.storage.pages file.volume := by
  simp only [image?, found, Option.bind_some] at held
  exact Storage.pageBound (housed.sized _ _ found ▸ file.layout.sizePositive) held

theorem viewInside (housed : p.Housed) {page : PageId} {image : Bytes}
    (found : p.tables.get? page.table = some file) (held : p.view? page = some image) :
    page.number.toNat < p.storage.pages file.volume := by
  cases present : p.resident.get? page with
  | some frame => exact housed.notBeyond found present
  | none => exact imageInside housed found ((viewAbsent present).symm.trans held)

theorem decodedPage (found : p.tables.get? file.table = some file)
    (fewSlots : file.layout.slots ≤ UInt32.size) (number : UInt32) :
    file.decodePage p.storage number =
      p.durable.onPage ⟨file.table, number⟩ file.layout.slots := by
  have rows (slot : UInt32) : p.durable ⟨⟨file.table, number⟩, slot⟩ =
      (p.storage.page? file.volume number.toNat).bind fun image =>
        file.layout.row? image slot.toNat := by
    simp only [durable, rowsOf, image?, found, Option.bind_some]
  have empty (none : ∀ slot, p.durable ⟨⟨file.table, number⟩, slot⟩ = none) :
      [] = p.durable.onPage ⟨file.table, number⟩ file.layout.slots := by
    simp only [Rows.onPage, none, Option.map_none, List.filterMap_none]
  unfold HeapFile.decodePage
  cases read : p.storage.image file.volume number with
  | error cause =>
    refine empty fun slot => ?_
    cases held : p.storage.page? file.volume number.toNat with
    | none => rw [rows, held, Option.bind_none]
    | some image =>
      rw [Storage.imageIff.mpr held] at read
      cases read
  | ok image =>
    have held := Storage.imageIff.mp read
    simp only [held, Option.bind_some] at rows
    simp only [Page.ofImage]
    by_cases whole : image.length = file.layout.pageSize
    · rw [dif_pos whole]
      exact Page.recordsOnPage ⟨⟨file.table, number⟩, file.layout, image, none, whole⟩ fewSlots rows
    · rw [dif_neg whole]
      exact empty fun slot => by rw [rows, Layout.row?, if_neg fun used => whole used.1]

theorem Orderly.decoded (orderly : p.Orderly) (room : p.Room) {table : TableId}
    (found : p.tables.get? table = some file) :
    p.durable.Listed table (file.decode p.storage) := by
  obtain rfl := orderly.named table file found
  have few := room _ file found
  have fewSlots := orderly.slots _ _ found
  have count : (p.storage.pageCount file.volume).toNat = p.storage.pages file.volume := by
    rw [Storage.pageCountPages, UInt32.toNat_ofNat_of_lt' few]
  have pages : file.decode p.storage =
      p.durable.onPages file.table file.layout.slots 0 (p.storage.pages file.volume) := by
    unfold HeapFile.decode Rows.onPages
    rw [count, List.range_eq_range']
    exact List.flatMap_congr fun number _ => decodedPage found fewSlots (.ofNat number)
  rw [pages]
  refine Rows.listedPages fewSlots (Nat.le_of_lt few) fun rid data home held => ?_
  rw [← home] at found
  obtain ⟨⟨image, seen⟩, slot⟩ := rowsComplete found held
  exact ⟨imageInside orderly.toHoused found seen, slot⟩

end Pool
end PagedHeap
