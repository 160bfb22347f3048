import PagedHeap.Page.Basic

/-! A page is a map from used slots to bytes. Each change is described by what it does
to the used slots and to the bytes of every slot. -/
namespace PagedHeap.Page

theorem headerBit (p : Page) {slot : Nat} (h : slot < p.slots) : slot / 8 < p.image.length := by
  rw [p.whole]
  exact Nat.lt_of_lt_of_le (p.layout.headerBound h) p.layout.headerInPage

theorem usedInRange {p : Page} {slot : Nat} (h : p.isUsed slot = true) : slot < p.slots := by
  simp only [isUsed, Bool.and_eq_true, decide_eq_true_eq] at h
  exact h.1

theorem isUsedSetUsed (p : Page) {slot : Nat} (h : slot < p.slots) (other : Nat) (on : Bool) :
    (p.setUsed slot on).isUsed other = if slot = other then on else p.isUsed other := by
  change (decide (other < p.slots) && Bits.test (Bits.write p.image slot on) other) = _
  rw [Bits.testWrite (p.headerBit h)]
  by_cases same : slot = other
  · subst same; simp [h]
  · simp [same, isUsed]

/- Switching a header bit leaves the slots alone: they lie behind the header. -/

theorem bytesBehindHeader (p : Page) {slot i : Nat} (h : slot < p.slots) (on : Bool)
    (behind : p.layout.header ≤ i) : (p.setUsed slot on).image[i]? = p.image[i]? := by
  change (Bits.write p.image slot on)[i]? = _
  have apart : slot / 8 ≠ i := Nat.ne_of_lt (Nat.lt_of_lt_of_le (p.layout.headerBound h) behind)
  simp [Bits.write, apart]

theorem sliceEq {a b : Bytes} {offset length : Nat}
    (h : ∀ i, offset ≤ i → i < offset + length → a[i]? = b[i]?) :
    Bytes.slice a offset length = Bytes.slice b offset length := by
  apply List.ext_getElem?
  intro i
  simp only [Bytes.slice, List.getElem?_take, List.getElem?_drop]
  split
  · exact h _ (Nat.le_add_right _ _) (by omega)
  · rfl

theorem slotBytesSetUsed (p : Page) {slot : Nat} (h : slot < p.slots) (other : Nat) (on : Bool) :
    (p.setUsed slot on).slotBytes other = p.slotBytes other :=
  sliceEq fun _ behind _ => p.bytesBehindHeader h on
    (Nat.le_trans (Nat.le_add_right _ _) behind)

/- Data in one slot: its own bytes, every other slot, and the header. -/

theorem slotBytesOwn (p : Page) {slot : Nat} {data : Bytes}
    (width : data.length = p.layout.recordWidth) (fits) :
    (p.withBytes slot data fits).slotBytes slot = data := by
  change Bytes.slice (Bytes.splice p.image (p.layout.offset slot) data) (p.layout.offset slot)
    p.layout.recordWidth = data
  rw [← width]
  exact Bytes.sliceSplice _ _ _

theorem slotBytesOther (p : Page) {slot other : Nat} {data : Bytes}
    (takes : p.layout.Takes data) (h : other < p.slots) (apart : slot ≠ other)
    (fits) : (p.withBytes slot data fits).slotBytes other = p.slotBytes other := by
  have width := takes.1
  have bound := p.layout.offsetBound takes.2 h
  apply sliceEq
  intro i start stop
  change p.layout.offset other ≤ i at start
  change i < p.layout.offset other + p.layout.recordWidth at stop
  rcases Nat.lt_or_gt_of_ne apart with before | behind
  · have step : (slot + 1) * p.layout.recordWidth ≤ other * p.layout.recordWidth :=
      Nat.mul_le_mul_right _ before
    rw [Nat.add_mul, Nat.one_mul] at step
    exact Bytes.spliceBehind (by rw [width]; simp only [Layout.offset] at *; omega)
  · have step : (other + 1) * p.layout.recordWidth ≤ slot * p.layout.recordWidth :=
      Nat.mul_le_mul_right _ behind
    rw [Nat.add_mul, Nat.one_mul] at step
    exact Bytes.spliceBefore _ (by simp only [Layout.offset] at *; omega)
      (by rw [p.whole]; omega)

theorem isUsedWithBytes (p : Page) (slot : Nat) (data : Bytes) (fits) (other : Nat) :
    (p.withBytes slot data fits).isUsed other = p.isUsed other := by
  by_cases inside : other < p.slots
  · have before := p.layout.headerBound inside
    have kept : (p.withBytes slot data fits).image[other / 8]? = p.image[other / 8]? :=
      Bytes.spliceBefore _ (Nat.lt_of_lt_of_le before (Nat.le_add_right _ _))
        (p.headerBit inside)
    change (decide (other < p.slots) && Bits.test (p.withBytes slot data fits).image other) = _
    simp only [isUsed, Bits.test, kept]
  · change (decide (other < p.slots) && _) = (decide (other < p.slots) && _)
    simp only [inside, decide_false, Bool.false_and]

/-- What an insert into a page has done. -/
structure Inserted (p : Page) (data : Bytes) (slot : Nat) (q : Page) : Prop where
  width : data.length = p.layout.recordWidth
  inRange : slot < p.slots
  free : p.isUsed slot = false
  least : ∀ s, s < slot → p.isUsed s = true
  sameId : q.id = p.id
  sameLayout : q.layout = p.layout
  sameMark : q.dirtiedBy = p.dirtiedBy
  used : ∀ s, q.isUsed s = if slot = s then true else p.isUsed s
  stored : q.slotBytes slot = data
  others : ∀ s, s < p.slots → slot ≠ s → q.slotBytes s = p.slotBytes s

theorem freeSlotFree {p : Page} {slot : Nat} (h : p.freeSlot? = some slot) :
    p.isUsed slot = false := by
  have found := List.find?_some h
  simpa using found

theorem freeSlotLeast {p : Page} {slot : Nat} (h : p.freeSlot? = some slot) {s : Nat}
    (before : s < slot) : p.isUsed s = true := by
  obtain ⟨_, i, bound, same, earlier⟩ := List.find?_eq_some_iff_getElem.mp h
  simp only [List.getElem_range] at same
  subst same
  have used := earlier s before
  simpa using used

theorem insertWide (p : Page) {data : Bytes} (wide : ¬ p.layout.Takes data) :
    p.insert data = .error (.recordWidth data.length p.id p.layout.recordWidth) := dif_neg wide

theorem insertFull (p : Page) {data : Bytes} (takes : p.layout.Takes data)
    (full : p.freeSlot? = none) : p.insert data = .error (.pageFull p.id) := by
  rw [insert, dif_pos takes]
  split
  · rfl
  · rename_i free
    rw [full] at free
    cases free

theorem insertStores (p : Page) {data : Bytes} (takes : p.layout.Takes data)
    {slot : Nat} (free : p.freeSlot? = some slot) :
    p.insert data = .ok (⟨p.id, UInt32.ofNat slot⟩,
      (p.withBytes slot data (dataFits takes (freeSlotBound free))).setUsed slot true) := by
  rw [insert, dif_pos takes]
  split
  · rename_i full
    rw [free] at full
    cases full
  · rename_i found
    cases free.symm.trans found
    rfl

theorem insertedStores {p : Page} {data : Bytes} (takes : p.layout.Takes data)
    {slot : Nat} (free : p.freeSlot? = some slot) (fits) :
    Inserted p data slot ((p.withBytes slot data fits).setUsed slot true) := by
  have inRange := freeSlotBound free
  refine ⟨takes.1, inRange, freeSlotFree free, fun s => freeSlotLeast free, rfl, rfl, rfl,
    ?_, ?_, ?_⟩
  · intro s
    exact (isUsedSetUsed (p.withBytes slot data _) inRange s true).trans
      (by rw [isUsedWithBytes])
  · exact (slotBytesSetUsed (p.withBytes slot data _) inRange slot true).trans
      (p.slotBytesOwn takes.1 _)
  · intro s inside apart
    exact (slotBytesSetUsed (p.withBytes slot data _) inRange s true).trans
      (p.slotBytesOther takes inside apart _)

theorem insertSource {p q : Page} {data : Bytes} {rid : Rid}
    (h : p.insert data = .ok (rid, q)) :
    ∃ slot, rid = ⟨p.id, UInt32.ofNat slot⟩ ∧ Inserted p data slot q := by
  by_cases takes : p.layout.Takes data
  · cases free : p.freeSlot? with
    | none =>
      rw [p.insertFull takes free] at h
      cases h
    | some slot =>
      rw [p.insertStores takes free] at h
      cases h
      exact ⟨slot, rfl, insertedStores takes free _⟩
  · rw [p.insertWide takes] at h
    cases h

/-- What a delete from a page has done. -/
structure Deleted (p : Page) (slot : Nat) (q : Page) : Prop where
  wasUsed : p.isUsed slot = true
  sameId : q.id = p.id
  sameLayout : q.layout = p.layout
  sameMark : q.dirtiedBy = p.dirtiedBy
  used : ∀ s, q.isUsed s = if slot = s then false else p.isUsed s
  bytes : ∀ s, q.slotBytes s = p.slotBytes s

theorem deleteSource {p q : Page} {rid : Option Rid} (h : p.delete rid = .ok q) :
    ∃ slot, rid = some ⟨p.id, slot⟩ ∧ Deleted p slot.toNat q := by
  unfold delete at h
  split at h
  · cases h
  · rename_i home slot
    split at h
    · cases h
    · rename_i here
      split at h
      · rename_i used
        have inRange := usedInRange used
        cases h
        refine ⟨slot, by rw [Decidable.not_not.mp here], used, rfl, rfl, rfl, ?_, ?_⟩
        · exact fun s => p.isUsedSetUsed inRange s false
        · exact fun s => p.slotBytesSetUsed inRange s false
      · cases h

/- Where the next used slot is. -/

theorem nextUsedSome {p : Page} {s t : Nat} : p.nextUsed? s = some t ↔
    s ≤ t ∧ p.isUsed t = true ∧ ∀ r, s ≤ r → r < t → p.isUsed r = false := by
  simp only [nextUsed?, List.find?_range_eq_some, Bool.and_eq_true, decide_eq_true_eq,
    List.mem_range, Bool.not_eq_true', Bool.and_eq_false_iff, decide_eq_false_iff_not]
  constructor
  · rintro ⟨⟨behind, used⟩, _, before⟩
    exact ⟨behind, used, fun r from_ below => (before r below).resolve_left (fun h => h from_)⟩
  · rintro ⟨behind, used, before⟩
    exact ⟨⟨behind, used⟩, usedInRange used, fun r below =>
      (Nat.lt_or_ge r s).imp Nat.not_le_of_lt (fun from_ => before r from_ below)⟩

theorem nextUsedNone {p : Page} {s : Nat} :
    p.nextUsed? s = none ↔ ∀ t, s ≤ t → p.isUsed t = false := by
  simp only [nextUsed?, List.find?_eq_none, List.mem_range, Bool.and_eq_true, decide_eq_true_eq,
    not_and, Bool.not_eq_true]
  constructor
  · intro none t behind
    cases used : p.isUsed t with
    | false => rfl
    | true => exact used.symm.trans (none t (usedInRange used) behind)
  · exact fun none t _ behind => none t behind

/- Room for a record. -/

theorem freeSlotFound {p : Page} (room : p.hasRoom = true) : ∃ slot, p.freeSlot? = some slot := by
  cases free : p.freeSlot? with
  | none =>
    simp only [freeSlot?, List.find?_eq_none] at free
    simp only [hasRoom, List.any_eq_true] at room
    obtain ⟨s, inside, unused⟩ := room
    exact absurd unused (free s inside)
  | some slot => exact ⟨slot, rfl⟩

theorem insertFits {p : Page} {data : Bytes} (takes : p.layout.Takes data)
    (room : p.hasRoom = true) : ∃ rid q, p.insert data = .ok (rid, q) := by
  obtain ⟨slot, free⟩ := freeSlotFound room
  exact ⟨_, _, p.insertStores takes free⟩

end PagedHeap.Page
