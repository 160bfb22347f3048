import PagedHeap.Proofs.Walks

/-! Walks over a table. The pages a walk has come by stay locked, so nobody else changes
them while it goes on; at its end the list says what is seen of the whole table then. -/
namespace PagedHeap.Pool

variable {p q : Pool} {file : HeapFile} {txn : TxnId}

structure Undisturbed (who : Option TxnId) (p q : Pool) : Prop extends Interlude who p q where
  orderly : q.Orderly
  rows : ∀ txn, who = some txn → q.Room → ∀ rid : Rid,
    (p.locks.access? txn rid.page).isSome = true → q.rows rid = p.rows rid

theorem Undisturbed.refl {who : Option TxnId} (orderly : p.Orderly) : Undisturbed who p p :=
  ⟨.refl orderly.toHoused, orderly, fun _ _ _ _ _ => rfl⟩

theorem Undisturbed.trans {who : Option TxnId} {r : Pool} (pq : Undisturbed who p q)
    (qr : Undisturbed who q r) : Undisturbed who p r := by
  refine ⟨pq.toInterlude.trans qr.toInterlude, qr.orderly, fun txn own room rid locked => ?_⟩
  have there : (q.locks.access? txn rid.page).isSome = true := by rwa [pq.access own]
  exact (qr.rows txn own room rid there).trans (pq.rows txn own (room.before qr.grew) rid locked)

theorem Orderly.frameRows (orderly : p.Orderly) (known : p.Knows file) {number : UInt32}
    {frame : Frame} (present : p.resident.get? ⟨file.table, number⟩ = some frame) :
    frame.page.records = p.rows.onPage ⟨file.table, number⟩ file.layout.slots := by
  obtain ⟨other, found, key, layout, _⟩ := orderly.keeps _ frame present
  rw [known] at found
  cases found
  have fewSlots : frame.page.slots ≤ UInt32.size := by
    rw [Page.slots, layout]
    exact orderly.slots _ _ known
  have seen (slot : UInt32) : p.rows ⟨frame.page.id, slot⟩ =
      frame.page.layout.row? frame.page.image slot.toNat := by
    have found : p.tables.get? frame.page.id.table = some file := by rw [key]; exact known
    rw [key] at found ⊢
    simp only [Pool.rows, rowsOf, found, Option.bind_some, viewResident present, layout]
  rw [Page.recordsOnPage frame.page fewSlots seen, key, Page.slots, layout]

/- The rest of a table from a page on: its records as they are seen, its pages locked. -/
def Walked (file : HeapFile) (txn : TxnId) (first : Nat) (records : List Record)
    (q : Pool) : Prop :=
  q.Room → ∃ stop, first ≤ stop ∧ stop ≤ UInt32.size ∧ q.storage.pages file.volume ≤ stop ∧
    (∀ n, first ≤ n → n < stop →
      (q.locks.access? txn ⟨file.table, .ofNat n⟩).isSome = true) ∧
    records = q.rows.onPages file.table file.layout.slots first (stop - first)

def Shown (file : HeapFile) (txn : TxnId) (number : UInt32) (here : List Record)
    (p : Pool) : Prop :=
  (p.locks.access? txn ⟨file.table, number⟩).isSome = true ∧
    (p.Room → here = p.rows.onPage ⟨file.table, number⟩ file.layout.slots)

theorem lastingRows (file : HeapFile) (txn : TxnId) :
    Lasting file txn Orderly (Undisturbed (some txn)) (Shown file txn) where
  housed orderly := orderly.toHoused
  invOwn orderly moves := orderly.sought moves.asSeeks
  invOthers others := others.orderly
  interlude others := others.toInterlude
  found orderly known present locked := ⟨locked, fun _ => orderly.frameRows known present⟩
  own orderly shown moves := by
    refine ⟨moves.keepsLocks shown.1, fun room => ?_⟩
    rw [(orderly.looksQuiet moves.asSeeks room).rows]
    exact shown.2 (room.before moves.grew)
  others shown others := by
    refine ⟨(others.access rfl _).symm ▸ shown.1, fun room => ?_⟩
    rw [shown.2 (room.before others.grew)]
    exact Rows.onPageSame fun slot => (others.rows _ rfl room ⟨_, slot⟩ shown.1).symm

theorem Read.walked {first : Nat} {records : List Record}
    (read : Read file (Shown file txn) first records q) : Walked file txn first records q := by
  intro room
  obtain ⟨stop, start, few, all, parts, shown, rfl⟩ := read (room file.table)
  refine ⟨stop, start, few, all, fun n above below => (shown n above below).1, ?_⟩
  refine List.flatMap_congr fun n there => (shown n ?_ ?_).2 room
  · exact (List.mem_range'_1.mp there).1
  · have bound := (List.mem_range'_1.mp there).2
    omega

def Scanned (table : TableId) (txn : TxnId) (records : List Record) (q : Pool) : Prop :=
  q.Room → q.rows.Listed table records ∧ ∀ rid : Rid, rid.page.table = table →
    (q.locks.access? txn rid.page).isSome = true ∨ (q.rows rid = none ∧ q.durable rid = none)

theorem Walked.scanned {records : List Record} (orderly : q.Orderly) (known : q.Knows file)
    (walked : Walked file txn 0 records q) : Scanned file.table txn records q := by
  intro room
  obtain ⟨stop, _, few, all, locks, rfl⟩ := walked room
  have found {rid : Rid} (home : rid.page.table = file.table) :
      q.tables.get? rid.page.table = some file := home ▸ known
  have complete {images : PageId → Option Bytes} {rid : Rid} (home : rid.page.table = file.table)
      (inside : ∀ {image}, images rid.page = some image →
        rid.page.number.toNat < q.storage.pages file.volume) {data : Bytes}
      (held : q.rowsOf images rid = some data) :
      rid.page.number.toNat < stop ∧ rid.slot.toNat < file.layout.slots := by
    obtain ⟨⟨image, seen⟩, slot⟩ := rowsComplete (found home) held
    exact ⟨Nat.lt_of_lt_of_le (inside seen) all, slot⟩
  refine ⟨Rows.listedPages (orderly.slots _ _ known) few fun rid data home held =>
    complete home (viewInside orderly.toHoused (found home)) held, fun rid home => ?_⟩
  by_cases inside : rid.page.number.toNat < stop
  · refine .inl ?_
    have locked := locks rid.page.number.toNat (Nat.zero_le _) inside
    rwa [UInt32.ofNat_toNat, ← home] at locked
  · refine .inr ⟨?_, ?_⟩
    · exact Option.eq_none_iff_forall_ne_some.mpr fun data held =>
        inside (complete home (viewInside orderly.toHoused (found home)) held).1
    · exact Option.eq_none_iff_forall_ne_some.mpr fun data held =>
        inside (complete home (imageInside orderly.toHoused (found home)) held).1

theorem scanMeets (orderly : p.Orderly) (known : p.Knows file) :
    (file.scan (some txn) p).Meets (Moves (Act.reads (some txn))) (Undisturbed (some txn))
      (fun s records q => Moves (Act.reads (some txn)) s q ∧
        Scanned file.table txn records q) p := by
  refine ((lastingRows file txn).scanMeets orderly known).mono (fun _ _ same => same)
    (fun _ _ same => same) fun a records q ended => ?_
  obtain ⟨⟨before, grew⟩, moves, read⟩ := ended
  have there := before.sought moves.asSeeks
  exact ⟨moves, read.walked.scanned there (known.later (grew.trans moves.grew))⟩

theorem walkReaches {who : Option TxnId} (housed : p.Housed) (left : Nat) (number : UInt32) :
    Reaches (Act.readsOn who file.table) who (Merely fun _ _ => True)
      (file.walk who left number p) p := by
  induction left generalizing p number with
  | zero => exact .lift ⟨.refl, trivial⟩
  | succ left ih =>
    refine (visitReaches who file housed number).bind housed fun frame? q there _ _ => ?_
    cases frame? with
    | none => exact .lift ⟨.refl, trivial⟩
    | some frame => exact (ih there (number + 1)).bind there fun _ _ _ _ _ => .lift ⟨.refl, trivial⟩

end PagedHeap.Pool
