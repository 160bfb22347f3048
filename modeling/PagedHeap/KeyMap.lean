/-! Finite maps with at most one entry a key, kept in the order in which the keys
came in. Writing to a key that is present leaves its place; forgetting a key and
writing it again moves it to the end. -/
namespace PagedHeap

structure KeyMap (κ α : Type) where
  entries : List (κ × α)
  distinctKeys : (entries.map Prod.fst).Nodup

namespace KeyMap

variable {κ α : Type}

instance [DecidableEq κ] [DecidableEq α] : DecidableEq (KeyMap κ α) := fun a b =>
  match decEq a.entries b.entries with
  | isTrue h => isTrue (by cases a; cases b; cases h; rfl)
  | isFalse h => isFalse (fun same => h (congrArg entries same))

instance [Repr κ] [Repr α] : Repr (KeyMap κ α) where
  reprPrec m n := reprPrec m.entries n

def empty : KeyMap κ α := ⟨[], List.nodup_nil⟩

instance : Inhabited (KeyMap κ α) := ⟨empty⟩

def keys (m : KeyMap κ α) : List κ := m.entries.map Prod.fst
def values (m : KeyMap κ α) : List α := m.entries.map Prod.snd
def size (m : KeyMap κ α) : Nat := m.entries.length

theorem filterNodup {l : List (κ × α)} (p : κ × α → Bool) (h : (l.map Prod.fst).Nodup) :
    ((l.filter p).map Prod.fst).Nodup :=
  h.sublist (List.filter_sublist.map Prod.fst)

variable [DecidableEq κ]

def find (k : κ) : List (κ × α) → Option α
  | [] => none
  | e :: rest => if e.1 = k then some e.2 else find k rest

def get? (m : KeyMap κ α) (k : κ) : Option α := find k m.entries

def getD (m : KeyMap κ α) (k : κ) (other : α) : α := (m.get? k).getD other

def contains (m : KeyMap κ α) (k : κ) : Bool := (m.get? k).isSome

def put (k : κ) (a : α) : List (κ × α) → List (κ × α)
  | [] => [(k, a)]
  | e :: rest => if e.1 = k then (k, a) :: rest else e :: put k a rest

theorem putKeys (k : κ) (a : α) (l : List (κ × α)) :
    (put k a l).map Prod.fst =
      if k ∈ l.map Prod.fst then l.map Prod.fst else l.map Prod.fst ++ [k] := by
  induction l with
  | nil => rfl
  | cons e rest ih =>
    by_cases h : e.1 = k
    · simp [put, h]
    · have other : ¬ k = e.1 := fun same => h same.symm
      simp only [put, h, if_false, List.map_cons, List.mem_cons, other, false_or]
      rw [ih]
      split <;> simp

theorem putNodup {k : κ} {a : α} {l : List (κ × α)} (h : (l.map Prod.fst).Nodup) :
    ((put k a l).map Prod.fst).Nodup := by
  rw [putKeys]
  split
  · exact h
  · rename_i fresh
    simp only [List.nodup_append, List.nodup_cons, List.not_mem_nil, not_false_eq_true,
      List.nodup_nil, and_self, true_and, h]
    intro x hx y hy
    simp only [List.mem_singleton] at hy
    subst hy
    intro same
    exact fresh (same ▸ hx)

def insert (m : KeyMap κ α) (k : κ) (a : α) : KeyMap κ α :=
  ⟨put k a m.entries, putNodup m.distinctKeys⟩

def erase (m : KeyMap κ α) (k : κ) : KeyMap κ α :=
  ⟨m.entries.filter (fun e => e.1 ≠ k), filterNodup _ m.distinctKeys⟩

/- What a look-up sees after each operation. -/

theorem findPut (k l : κ) (a : α) (es : List (κ × α)) :
    find l (put k a es) = if k = l then some a else find l es := by
  induction es with
  | nil => simp [put, find]
  | cons e rest ih =>
    by_cases h : e.1 = k
    · by_cases same : k = l <;> simp [put, find, h, same]
    · by_cases same : e.1 = l
      · have other : ¬ l = k := fun eq => h (same.trans eq)
        simp [put, find, same, other, Ne.symm other]
      · simp [put, find, h, same, ih]

theorem findFilter (k l : κ) (es : List (κ × α)) :
    find l (es.filter (fun e => e.1 ≠ k)) = if k = l then none else find l es := by
  induction es with
  | nil => simp [find]
  | cons e rest ih =>
    by_cases h : e.1 = k
    · by_cases same : k = l
      · simp [h, same] at ih ⊢; exact ih
      · simp [find, h, same] at ih ⊢; exact ih
    · by_cases same : e.1 = l
      · have other : ¬ l = k := fun eq => h (same.trans eq)
        simp [find, same, other, Ne.symm other]
      · simp [find, h, same] at ih ⊢; exact ih

theorem findMem (k : κ) (es : List (κ × α)) :
    k ∈ es.map Prod.fst ↔ (find k es).isSome = true := by
  induction es with
  | nil => simp [find]
  | cons e rest ih =>
    by_cases h : e.1 = k
    · simp [find, h]
    · have other : ¬ k = e.1 := fun same => h same.symm
      simp [find, h, other] at ih ⊢; exact ih

@[simp] theorem getEmpty (k : κ) : (empty : KeyMap κ α).get? k = none := rfl

@[simp] theorem getInsert (m : KeyMap κ α) (k l : κ) (a : α) :
    (m.insert k a).get? l = if k = l then some a else m.get? l := findPut k l a m.entries

theorem insertSource {m : KeyMap κ α} {k l : κ} {a b : α} (h : (m.insert k a).get? l = some b) :
    a = b ∨ m.get? l = some b := by
  rw [getInsert] at h
  split at h
  · exact .inl (Option.some.inj h)
  · exact .inr h

@[simp] theorem getErase (m : KeyMap κ α) (k l : κ) :
    (m.erase k).get? l = if k = l then none else m.get? l := findFilter k l m.entries

theorem memKeys (m : KeyMap κ α) (k : κ) : k ∈ m.keys ↔ m.contains k = true :=
  findMem k m.entries

theorem keysInsert (m : KeyMap κ α) (k : κ) (a : α) :
    (m.insert k a).keys = if k ∈ m.keys then m.keys else m.keys ++ [k] := putKeys k a m.entries

theorem keysErase (m : KeyMap κ α) (k : κ) : (m.erase k).keys = m.keys.filter (· ≠ k) := by
  simp only [keys, erase, List.filter_map]
  rfl

theorem sizeInsert (m : KeyMap κ α) (k : κ) (a : α) :
    (m.insert k a).size = if m.contains k then m.size else m.size + 1 := by
  have lengths := congrArg List.length (keysInsert m k a)
  simp only [keys, List.length_map] at lengths
  by_cases h : k ∈ m.keys
  · have present := (memKeys m k).mp h
    simp only [keys] at h
    simp only [size, present, if_true, lengths, h, List.length_map]
  · have absent : ¬ m.contains k = true := fun p => h ((memKeys m k).mpr p)
    simp only [keys] at h
    simp [size, absent, lengths, h]

theorem findEntry (k : κ) (a : α) {es : List (κ × α)} (distinct : (es.map Prod.fst).Nodup) :
    (k, a) ∈ es ↔ find k es = some a := by
  induction es with
  | nil => simp [find]
  | cons e rest ih =>
    rw [List.map_cons, List.nodup_cons] at distinct
    by_cases here : e.1 = k
    · subst here
      have absent : (e.1, a) ∉ rest := fun there =>
        distinct.1 (List.mem_map.mpr ⟨(e.1, a), there, rfl⟩)
      simp [find, absent, Prod.ext_iff, eq_comm]
    · have other : ¬ (k, a) = e := fun same => here (congrArg Prod.fst same).symm
      simp [find, here, other, ih distinct.2]

theorem memEntries (m : KeyMap κ α) (k : κ) (a : α) : (k, a) ∈ m.entries ↔ m.get? k = some a :=
  findEntry k a m.distinctKeys

theorem putSame {k : κ} {a : α} {es : List (κ × α)} (h : find k es = some a) :
    put k a es = es := by
  induction es with
  | nil => cases h
  | cons e rest ih =>
    by_cases here : e.1 = k
    · subst here
      simp only [find, if_true, Option.some.injEq] at h
      simp [put, ← h]
    · simp only [find, here, if_false] at h
      simp [put, here, ih h]

theorem insertSame {m : KeyMap κ α} {k : κ} {a : α} (h : m.get? k = some a) :
    m.insert k a = m := by
  cases m
  simp only [insert, mk.injEq]
  exact putSame h

theorem filterFound {k : κ} {a : α} {es : List (κ × α)} (distinct : (es.map Prod.fst).Nodup)
    (h : find k es = some a) : (es.filter (fun e => e.1 ≠ k)).length + 1 = es.length := by
  induction es with
  | nil => cases h
  | cons e rest ih =>
    rw [List.map_cons, List.nodup_cons] at distinct
    by_cases here : e.1 = k
    · subst here
      have away : rest.filter (fun x => x.1 ≠ e.1) = rest := List.filter_eq_self.mpr fun x there =>
        decide_eq_true fun same => distinct.1 (same ▸ List.mem_map.mpr ⟨x, there, rfl⟩)
      rw [List.filter_cons_of_neg (by simp), away, List.length_cons]
    · simp only [find, here, if_false] at h
      rw [List.filter_cons_of_pos (by simpa using here), List.length_cons, List.length_cons,
        ih distinct.2 h]

theorem sizeErase {m : KeyMap κ α} {k : κ} {a : α} (h : m.get? k = some a) :
    (m.erase k).size + 1 = m.size := filterFound m.distinctKeys h

theorem sizeEraseLe (m : KeyMap κ α) (k : κ) : (m.erase k).size ≤ m.size :=
  List.length_filter_le ..

/- A map is its keys in their order and what is found under them. -/

theorem findSame {es fs : List (κ × α)} (distinct : (es.map Prod.fst).Nodup)
    (keys : es.map Prod.fst = fs.map Prod.fst) (same : ∀ k, find k es = find k fs) : es = fs := by
  induction es generalizing fs with
  | nil =>
    cases fs with
    | nil => rfl
    | cons f rest => simp at keys
  | cons e rest ih =>
    cases fs with
    | nil => simp at keys
    | cons f others =>
      obtain ⟨first, later⟩ := List.cons.inj keys
      rw [List.map_cons, List.nodup_cons] at distinct
      have here := same e.1
      simp only [find, if_true, if_pos first.symm, Option.some.injEq] at here
      have whole : rest = others := by
        refine ih distinct.2 later fun k => ?_
        by_cases own : e.1 = k
        · subst own
          have absent {l : List (κ × α)} (out : e.1 ∉ l.map Prod.fst) : find e.1 l = none := by
            rw [findMem] at out
            simpa using out
          rw [absent distinct.1, absent (later ▸ distinct.1)]
        · have there := same k
          simpa only [find, if_neg own, if_neg (first ▸ own)] using there
      rw [Prod.ext first here, whole]

theorem sameOfKeys {m n : KeyMap κ α} (keys : m.keys = n.keys) (same : ∀ k, m.get? k = n.get? k) :
    m = n := by
  cases m
  cases n
  simp only [mk.injEq]
  exact findSame (by assumption) keys same

/-- Some keys may be gone, and those that are left are where they were. -/
def Thins (m n : KeyMap κ α) : Prop := n.keys = m.keys.filter fun k => n.contains k

namespace Thins

variable {m n o : KeyMap κ α}

theorem ofKeys (same : n.keys = m.keys) : Thins m n := by
  rw [Thins, ← same, eq_comm, List.filter_eq_self]
  exact fun k there => (n.memKeys k).mp there

theorem trans (first : Thins m n) (second : Thins n o) : Thins m o := by
  rw [Thins, second, first, List.filter_filter]
  refine List.filter_congr fun k _ => ?_
  cases left : o.contains k with
  | false => rfl
  | true =>
    have there : k ∈ n.keys := by
      have last := (o.memKeys k).mpr left
      rw [second] at last
      exact (List.mem_filter.mp last).1
    simpa using (n.memKeys k).mp there

theorem insert {k : κ} (a : α) (present : m.contains k = true) : Thins m (m.insert k a) :=
  .ofKeys ((keysInsert m k a).trans (if_pos ((m.memKeys k).mpr present)))

theorem erase (m : KeyMap κ α) (k : κ) : Thins m (m.erase k) := by
  rw [Thins, keysErase]
  refine List.filter_congr fun l there => ?_
  have present := (m.memKeys l).mp there
  rw [contains] at present ⊢
  rw [getErase]
  by_cases own : k = l
  · simp [own]
  · have other : ¬ l = k := fun same => own same.symm
    simp [own, other, present]

/-- Where two maps come of one by losing keys, they are the same if they hold the same. -/
theorem unique (first : Thins m n) (second : Thins m o) (same : ∀ k, n.get? k = o.get? k) :
    n = o := by
  refine sameOfKeys ?_ same
  rw [first, second]
  exact List.filter_congr fun k _ => congrArg Option.isSome (same k)

end Thins

theorem eraseComm (m : KeyMap κ α) (k l : κ) : (m.erase k).erase l = (m.erase l).erase k := by
  simp only [erase, List.filter_filter, mk.injEq]
  congr 1
  funext e
  exact Bool.and_comm _ _

end KeyMap
end PagedHeap
