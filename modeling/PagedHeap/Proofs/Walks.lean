import PagedHeap.Proofs.Listing
import PagedHeap.Proofs.PoolActivity

/-! Walks over a table, whatever is to be known about its pages. What is known of a page when
the walk comes by and is undone by nobody is known of every page at the end. -/
namespace PagedHeap.Pool

variable {p q : Pool} {file : HeapFile} {txn : TxnId} {inv : Pool → Prop}
  {others : Pool → Pool → Prop} {fact : UInt32 → List Record → Pool → Prop}

theorem Moves.keepsLocks {who : Option TxnId} (moves : Moves (Act.reads who) p q)
    {page : PageId} (locked : (p.locks.access? txn page).isSome = true) :
    (q.locks.access? txn page).isSome = true :=
  moves.within (fun p q => (p.locks.access? txn page).isSome = true →
    (q.locks.access? txn page).isSome = true) (fun _ same => same)
    (fun _ _ _ first second same => second (first same))
    (fun act _ _ allowed move => move.keepsLock fun lost => by
      cases act <;> first | exact allowed.elim | exact lost.elim) locked

/- A fact about a page and the records that were read there. It holds where a page is found
under lock, and lasts while the walk goes on and others act. -/
structure Lasting (file : HeapFile) (txn : TxnId) (inv : Pool → Prop)
    (others : Pool → Pool → Prop) (fact : UInt32 → List Record → Pool → Prop) : Prop where
  housed : ∀ {p}, inv p → p.Housed
  invOwn : ∀ {p q}, inv p → Moves (Act.reads (some txn)) p q → inv q
  invOthers : ∀ {p q}, others p q → inv q
  interlude : ∀ {p q}, others p q → Interlude (some txn) p q
  found : ∀ {p number frame}, inv p → p.Knows file →
    p.resident.get? ⟨file.table, number⟩ = some frame →
    (p.locks.access? txn ⟨file.table, number⟩).isSome = true → fact number frame.page.records p
  own : ∀ {p q number records}, inv p → fact number records p →
    Moves (Act.reads (some txn)) p q → fact number records q
  others : ∀ {p q number records}, fact number records p → others p q → fact number records q

def Read (file : HeapFile) (fact : UInt32 → List Record → Pool → Prop) (first : Nat)
    (records : List Record) (q : Pool) : Prop :=
  q.Numbered file.table → ∃ stop, first ≤ stop ∧ stop ≤ UInt32.size ∧
    q.storage.pages file.volume ≤ stop ∧ ∃ parts : Nat → List Record,
      (∀ n, first ≤ n → n < stop → fact (.ofNat n) (parts n) q) ∧
      records = (List.range' first (stop - first)).flatMap parts

theorem Read.step {number : UInt32} {here rest : List Record} (known : fact number here q)
    (read : Read file fact (number.toNat + 1) rest q) :
    Read file fact number.toNat (here ++ rest) q := by
  intro numbered
  obtain ⟨stop, more, few, all, parts, facts, same⟩ := read numbered
  refine ⟨stop, Nat.le_of_succ_le more, few, all,
    fun n => if n = number.toNat then here else parts n, fun n start bound => ?_, ?_⟩
  · by_cases own : n = number.toNat
    · subst own
      simp only [UInt32.ofNat_toNat, if_true]
      exact known
    · simp only [own, if_false]
      exact facts n (by omega) bound
  · have count : stop - number.toNat = stop - (number.toNat + 1) + 1 := by omega
    rw [count, List.range'_succ, List.flatMap_cons, if_pos rfl, same]
    refine congrArg (here ++ ·) (List.flatMap_congr fun n there => ?_)
    have later := (List.mem_range'_1.mp there).1
    rw [if_neg (by omega)]

theorem Read.beyond (known : q.Knows file) {number : UInt32}
    (told : UInt32.ofNat (q.storage.pages file.volume) ≤ number) :
    Read file fact number.toNat [] q := by
  intro numbered
  have few := numbered file known
  rw [UInt32.le_iff_toNat_le, UInt32.toNat_ofNat_of_lt' few] at told
  refine ⟨number.toNat, Nat.le_refl _, Nat.le_of_lt number.toNat_lt, told, fun _ => [],
    fun n start bound => absurd bound (Nat.not_lt_of_le start), ?_⟩
  rw [Nat.sub_self]
  rfl

structure Remembered (file : HeapFile) (inv : Pool → Prop)
    (fact : UInt32 → List Record → Pool → Prop) (number : UInt32) (here : List Record)
    (p : Pool) : Prop where
  holds : inv p
  known : p.Knows file
  inside : number.toNat < p.storage.pages file.volume
  fact : fact number here p

namespace Remembered

variable {number : UInt32} {here : List Record}

theorem byOwn (h : Remembered file inv fact number here p)
    (lasting : Lasting file txn inv others fact)
    (moves : Moves (Act.reads (some txn)) p q) : Remembered file inv fact number here q where
  holds := lasting.invOwn h.holds moves
  known := h.known.later moves.grew
  inside := Nat.lt_of_lt_of_le h.inside (moves.grew.storage.grown _)
  fact := lasting.own h.holds h.fact moves

theorem byOthers (h : Remembered file inv fact number here p)
    (lasting : Lasting file txn inv others fact) (acted : others p q) :
    Remembered file inv fact number here q where
  holds := lasting.invOthers acted
  known := h.known.later (lasting.interlude acted).grew
  inside := Nat.lt_of_lt_of_le h.inside ((lasting.interlude acted).grew.storage.grown _)
  fact := lasting.others h.fact acted

theorem more (h : Remembered file inv fact number here p) (numbered : p.Numbered file.table)
    {left : Nat} (last : number.toNat + (left + 1) = UInt32.size) : left ≠ 0 := by
  have few := numbered file h.known
  have inside := h.inside
  omega

end Remembered

theorem Lasting.keeping {α : Type} {work : Progress Pool α} {done : Pool → α → Pool → Prop}
    (lasting : Lasting file txn inv others fact) (holds : inv p)
    (h : work.Meets (Moves (Act.reads (some txn))) others done p) :
    work.Meets (Moves (Act.reads (some txn))) others
      (fun a x b => (inv a ∧ Grew p a) ∧ done a x b) p :=
  h.keep (fun q => inv q ∧ Grew p q)
    (fun _ _ before moves => ⟨lasting.invOwn before.1 moves, before.2.trans moves.grew⟩)
    (fun _ _ before acted =>
      ⟨lasting.invOthers acted, before.2.trans (lasting.interlude acted).grew⟩) ⟨holds, .refl p⟩

theorem Lasting.walkMeets (lasting : Lasting file txn inv others fact) (left : Nat)
    (number : UInt32) (holds : inv p) (known : p.Knows file)
    (bound : left ≠ 0 → number.toNat + left = UInt32.size)
    (short : left = 0 → ¬ p.Numbered file.table) :
    (file.walk (some txn) left number p).Meets (Moves (Act.reads (some txn))) others
      (fun s records q => Moves (Act.reads (some txn)) s q ∧
        Read file fact number.toNat records q) p := by
  -- on the numbers left; what was read of a page is remembered until the rest has been walked
  induction left generalizing p number with
  | zero => exact ⟨.refl, fun numbered => absurd numbered (short rfl)⟩
  | succ left ih =>
    have visit := lasting.keeping holds (Progress.Meets.mono
      ((visitReaches (some txn) file (lasting.housed holds) number).widen fun _ => And.left)
      (fun _ _ same => same)
      (fun _ _ acted => lasting.interlude acted) (fun _ _ _ same => same))
    have last := bound (Nat.succ_ne_zero left)
    refine visit.andThen fun s frame? m ended => ?_
    obtain ⟨⟨before, grew⟩, _, moves, rfl, told⟩ := ended
    rename_i m
    cases frame? with
    | none => exact ⟨moves, .beyond (known.later (grew.trans moves.grew)) told⟩
    | some frame =>
      have there := lasting.invOwn before moves
      have known := known.later (grew.trans moves.grew)
      have inside : (⟨file.table, number⟩ : PageId).number.toNat < m.storage.pages file.volume :=
        (lasting.housed there).notBeyond known told.1
      have remembered : Remembered file inv fact number frame.page.records m :=
        ⟨there, known, inside, lasting.found there known told.1 (told.2.1 txn rfl)⟩
      have next (more : left ≠ 0) : (number + 1).toNat = number.toNat + 1 :=
        Rows.wordNext (by omega)
      have tail := ((ih (number + 1) there known (fun more => by rw [next more]; omega)
        (fun none numbered => remembered.more numbered last none)).keep
        (Remembered file inv fact number frame.page.records) (fun _ _ held => held.byOwn lasting)
        (fun _ _ held => held.byOthers lasting) remembered).follow (fun _ => .refl)
        (fun _ _ _ => .trans) moves
      refine tail.andThen fun a rest b done => ?_
      obtain ⟨u, first, remembered, later, read⟩ := done
      have here := remembered.byOwn lasting later
      have read : Read file fact (number.toNat + 1) rest b := fun numbered =>
        next (here.more numbered last) ▸ read numbered
      exact ⟨first.trans later, read.step here.fact⟩

theorem Lasting.scanMeets (lasting : Lasting file txn inv others fact) (holds : inv p)
    (known : p.Knows file) :
    (file.scan (some txn) p).Meets (Moves (Act.reads (some txn))) others
      (fun s records q => (inv s ∧ Grew p s) ∧ Moves (Act.reads (some txn)) s q ∧
        Read file fact 0 records q) p :=
  lasting.keeping holds (lasting.walkMeets UInt32.size 0 holds known (fun _ => rfl)
    (fun none => by cases none))

end PagedHeap.Pool
