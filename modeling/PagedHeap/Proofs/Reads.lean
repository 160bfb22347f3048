import PagedHeap.Proofs.Guards
import PagedHeap.Proofs.Walks

/-! Lists of a table that a transaction was given under lock. Its pages stay as they were read,
so a later list begins with the earlier one, and goes on with pages that have come since. -/
namespace PagedHeap

namespace HeapFile

def recordsIn (f : HeapFile) (page : PageId) (image : Bytes) : List Record :=
  match Page.ofImage page f.layout image with
  | .error _ => []
  | .ok copy => copy.records

theorem recordsHome {f : HeapFile} {page : PageId} {image : Bytes} {record : Record}
    (there : record ∈ f.recordsIn page image) : ∃ slot, record.rid = some ⟨page, slot⟩ := by
  unfold recordsIn Page.ofImage at there
  split at there
  · exact (List.not_mem_nil there).elim
  · rename_i copy made
    split at made
    · cases made
      obtain ⟨slot, _, found⟩ := List.mem_filterMap.mp there
      unfold Page.get? at found
      split at found
      · cases found
        exact ⟨_, rfl⟩
      · cases found
    · cases made

end HeapFile

namespace Pool

variable {p q : Pool} {file : HeapFile} {txn : TxnId}

def recordsAt (p : Pool) (file : HeapFile) (number : UInt32) : List Record :=
  match p.view? ⟨file.table, number⟩ with
  | none => []
  | some image => file.recordsIn ⟨file.table, number⟩ image

theorem Housed.recordsFrame (housed : p.Housed) (known : p.Knows file) {number : UInt32}
    {frame : Frame} (present : p.resident.get? ⟨file.table, number⟩ = some frame) :
    frame.page.records = file.recordsIn ⟨file.table, number⟩ frame.page.image := by
  obtain ⟨other, found, key, layout, _⟩ := housed.keeps _ frame present
  rw [known] at found
  cases found
  obtain ⟨id, ⟨home, same, image, mark, whole⟩⟩ := frame
  cases key
  cases layout
  unfold HeapFile.recordsIn Page.ofImage
  rw [dif_pos whole]
  rfl

def Stands (file : HeapFile) (txn : TxnId) (number : UInt32) (here : List Record)
    (p : Pool) : Prop :=
  (p.locks.access? txn ⟨file.table, number⟩).isSome = true ∧ (p.Numbered file.table →
    ∃ image, p.view? ⟨file.table, number⟩ = some image ∧
      here = file.recordsIn ⟨file.table, number⟩ image)

theorem lastingViews (file : HeapFile) (txn : TxnId) :
    Lasting file txn Guarded (Respects (some txn)) (Stands file txn) where
  housed guarded := guarded.toHoused
  invOwn guarded moves := guarded.mild (moves.mono fun _ => Act.readsMild)
  invOthers others := others.guarded
  interlude others := others.toInterlude
  found guarded known present locked :=
    ⟨locked, fun _ => ⟨_, viewResident present, guarded.recordsFrame known present⟩⟩
  own guarded stands moves := by
    refine ⟨moves.keepsLocks stands.1, fun numbered => ?_⟩
    obtain ⟨image, seen, same⟩ := stands.2 (numbered.before moves.grew)
    have there := guarded.mild (moves.mono fun _ => Act.readsMild)
    exact ⟨image, guarded.viewsKept (fun _ of => Act.mildLeaves _ (Act.readsMild of)) moves
      there.apart numbered seen, same⟩
  others stands others := by
    refine ⟨(others.access rfl _).symm ▸ stands.1, fun numbered => ?_⟩
    obtain ⟨image, seen, same⟩ := stands.2 (numbered.before others.grew)
    exact ⟨image, others.views txn rfl _ image stands.1 numbered seen, same⟩

structure Whole (file : HeapFile) (txn : TxnId) (records : List Record) (p : Pool) : Prop where
  locked : ∀ n < p.storage.pages file.volume,
    (p.locks.access? txn ⟨file.table, .ofNat n⟩).isSome = true
  seen : ∀ n < p.storage.pages file.volume, ∃ image,
    p.view? ⟨file.table, .ofNat n⟩ = some image
  pages : records = (List.range (p.storage.pages file.volume)).flatMap fun n =>
    p.recordsAt file (.ofNat n)

theorem Read.whole {records : List Record} (housed : p.Housed) (known : p.Knows file)
    (read : Read file (Stands file txn) 0 records p) (numbered : p.Numbered file.table) :
    Whole file txn records p := by
  obtain ⟨stop, _, few, all, parts, stands, same⟩ := read numbered
  have seen (n : Nat) (bound : n < stop) : ∃ image, p.view? ⟨file.table, .ofNat n⟩ = some image ∧
      parts n = file.recordsIn ⟨file.table, .ofNat n⟩ image :=
    (stands n (Nat.zero_le _) bound).2 numbered
  -- a page that was read is there, so the walk has come no further than the table
  have last : stop = p.storage.pages file.volume := by
    refine Nat.le_antisymm (Nat.le_of_not_lt fun beyond => ?_) all
    obtain ⟨image, there, _⟩ := seen _ beyond
    have found : p.tables.get? (⟨file.table, .ofNat (p.storage.pages file.volume)⟩ : PageId).table =
      some file := known
    have inside := viewInside housed found there
    rw [UInt32.toNat_ofNat_of_lt' (Nat.lt_of_lt_of_le beyond few)] at inside
    exact absurd inside (Nat.lt_irrefl _)
  subst last
  refine ⟨fun n bound => (stands n (Nat.zero_le _) bound).1, fun n bound => ?_, ?_⟩
  · obtain ⟨image, there, _⟩ := seen n bound
    exact ⟨image, there⟩
  · rw [same, Nat.sub_zero, ← List.range_eq_range']
    refine List.flatMap_congr fun n there => ?_
    obtain ⟨image, view, part⟩ := seen n (List.mem_range.mp there)
    simp only [recordsAt, view, part]

/- Where the pages of the first list are as they were, the second list begins with it. -/
theorem Whole.again {first second : List Record} (before : Whole file txn first p)
    (after : Whole file txn second q) (grew : Grew p q)
    (few : q.storage.pages file.volume < UInt32.size)
    (kept : ∀ page image, page.table = file.table → (p.locks.access? txn page).isSome = true →
      p.view? page = some image → q.view? page = some image) :
    ∃ extra, second = first ++ extra ∧ ∀ record ∈ extra, ∃ rid, record.rid = some rid ∧
      rid.page.table = file.table ∧ p.storage.pages file.volume ≤ rid.page.number.toNat := by
  obtain ⟨more, longer⟩ := Nat.exists_eq_add_of_le (grew.storage.grown file.volume)
  refine ⟨(List.range' (p.storage.pages file.volume) more).flatMap fun n =>
    q.recordsAt file (.ofNat n), ?_, fun record there => ?_⟩
  · have split : List.range (p.storage.pages file.volume + more) =
        List.range (p.storage.pages file.volume) ++
          List.range' (p.storage.pages file.volume) more := by
      rw [List.range_eq_range', List.range_eq_range', ← List.range'_append_1, Nat.zero_add]
    rw [after.pages, longer, split, List.flatMap_append, before.pages]
    refine congrArg (· ++ _) (List.flatMap_congr fun n there => ?_)
    have bound := List.mem_range.mp there
    obtain ⟨image, seen⟩ := before.seen n bound
    simp only [recordsAt, seen, kept _ image rfl (before.locked n bound) seen]
  · obtain ⟨n, inside, found⟩ := List.mem_flatMap.mp there
    obtain ⟨above, below⟩ := List.mem_range'_1.mp inside
    unfold recordsAt at found
    split at found
    · exact (List.not_mem_nil found).elim
    · obtain ⟨slot, place⟩ := HeapFile.recordsHome found
      refine ⟨_, place, rfl, ?_⟩
      rw [UInt32.toNat_ofNat_of_lt' (by omega)]
      exact above

end Pool
end PagedHeap
