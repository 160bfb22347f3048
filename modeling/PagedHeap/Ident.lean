/-! Identifiers: tables, pages, places of records and transactions. Numbers are
machine words, as they are stored: 32 bits inside a table, 64 for transactions.
Orders are lexicographic, from the table inwards. -/
namespace PagedHeap

abbrev TableId := UInt32
abbrev TxnId := UInt64

structure PageId where
  table : TableId
  number : UInt32
  deriving DecidableEq, Repr

structure Rid where
  page : PageId
  slot : UInt32
  deriving DecidableEq, Repr

theorem wordTotal (a b : UInt32) : a < b ∨ a = b ∨ b < a := by
  simp only [UInt32.lt_iff_toNat_lt, ← UInt32.toNat_inj]
  exact Nat.lt_trichotomy a.toNat b.toNat

namespace PageId

instance : LT PageId where
  lt a b := a.table < b.table ∨ (a.table = b.table ∧ a.number < b.number)

instance (a b : PageId) : Decidable (a < b) :=
  inferInstanceAs (Decidable (a.table < b.table ∨ (a.table = b.table ∧ a.number < b.number)))

def text (p : PageId) : String := s!"{p.table.toNat}:{p.number.toNat}"

theorem irrefl (a : PageId) : ¬ a < a := by
  rintro (h | ⟨_, h⟩) <;> exact absurd h (UInt32.lt_irrefl _)

theorem trans {a b c : PageId} (ab : a < b) (bc : b < c) : a < c := by
  rcases ab with h | ⟨e, h⟩ <;> rcases bc with k | ⟨f, k⟩
  · exact .inl (UInt32.lt_trans h k)
  · exact .inl (f ▸ h)
  · exact .inl (e ▸ k)
  · exact .inr ⟨e.trans f, UInt32.lt_trans h k⟩

theorem total (a b : PageId) : a < b ∨ a = b ∨ b < a := by
  obtain ⟨table, number⟩ := a
  obtain ⟨table', number'⟩ := b
  rcases wordTotal table table' with h | rfl | h
  · exact .inl (.inl h)
  · rcases wordTotal number number' with k | rfl | k
    · exact .inl (.inr ⟨rfl, k⟩)
    · exact .inr (.inl rfl)
    · exact .inr (.inr (.inr ⟨rfl, k⟩))
  · exact .inr (.inr (.inl h))

end PageId

namespace Rid

instance : LT Rid where
  lt a b := a.page < b.page ∨ (a.page = b.page ∧ a.slot < b.slot)

instance (a b : Rid) : Decidable (a < b) :=
  inferInstanceAs (Decidable (a.page < b.page ∨ (a.page = b.page ∧ a.slot < b.slot)))

theorem irrefl (a : Rid) : ¬ a < a := by
  rintro (h | ⟨_, h⟩)
  · exact PageId.irrefl _ h
  · exact UInt32.lt_irrefl _ h

theorem trans {a b c : Rid} (ab : a < b) (bc : b < c) : a < c := by
  rcases ab with h | ⟨e, h⟩ <;> rcases bc with k | ⟨f, k⟩
  · exact .inl (PageId.trans h k)
  · exact .inl (f ▸ h)
  · exact .inl (e ▸ k)
  · exact .inr ⟨e.trans f, UInt32.lt_trans h k⟩

theorem total (a b : Rid) : a < b ∨ a = b ∨ b < a := by
  obtain ⟨page, slot⟩ := a
  obtain ⟨page', slot'⟩ := b
  rcases PageId.total page page' with h | rfl | h
  · exact .inl (.inl h)
  · rcases wordTotal slot slot' with k | rfl | k
    · exact .inl (.inr ⟨rfl, k⟩)
    · exact .inr (.inl rfl)
    · exact .inr (.inr (.inr ⟨rfl, k⟩))
  · exact .inr (.inr (.inl h))

end Rid

def TxnId.text (t : TxnId) : String := s!"txn#{t.toNat}"

/- Sorting puts equal members side by side, which is all that dropping repeats
needs. -/
def ascending {α : Type} [LT α] [DecidableRel (α := α) (· < ·)] (l : List α) : List α :=
  l.mergeSort fun a b => !decide (b < a)

def distinct {α : Type} [DecidableEq α] : List α → List α
  | [] => []
  | [a] => [a]
  | a :: b :: rest => if a = b then distinct (b :: rest) else a :: distinct (b :: rest)

end PagedHeap
