import PagedHeap.Proofs.Cursors
import PagedHeap.Proofs.Frames

/-! What a cursor tells from one rewinding to the next: records in the order of their places, at
most one failure, and nothing after a failure or the end. Each step looks at no more pages than
there are, so it comes to an end however many of them have no records. -/
namespace PagedHeap

open Pool (Moves)

abbrev Told := List (Except Error (Option Record))

def Position.Ahead (rid : Rid) : Position → Prop
  | .unopened => True
  | .onPage number slot _ =>
    number < rid.page.number ∨ number = rid.page.number ∧ slot ≤ rid.slot.toNat
  | .exhausted => False

theorem Position.ascends {position : Position} {x y : Rid} (home : x.page.table = y.page.table)
    (past : ¬ position.Ahead x) (ahead : position.Ahead y) : x < y := by
  cases position with
  | unopened => exact absurd trivial past
  | exhausted => exact ahead.elim
  | onPage number slot frame =>
    obtain ⟨⟨table, first⟩, left⟩ := x
    obtain ⟨⟨_, second⟩, right⟩ := y
    obtain rfl := home
    obtain ⟨notBefore, notHere⟩ := not_or.mp past
    rcases wordTotal number first with before | rfl | behind
    · exact absurd before notBefore
    · have slots : left.toNat < slot := Nat.lt_of_not_le fun later => notHere ⟨rfl, later⟩
      rcases ahead with later | ⟨here, reached⟩
      · exact .inl (.inr ⟨rfl, later⟩)
      · exact .inr ⟨congrArg (PageId.mk table) here,
          UInt32.lt_iff_toNat_lt.mpr (Nat.lt_of_lt_of_le slots reached)⟩
    · rcases ahead with later | ⟨rfl, _⟩
      · exact .inl (.inr ⟨rfl, UInt32.lt_trans behind later⟩)
      · exact .inl (.inr ⟨rfl, behind⟩)

namespace Cursor

/- What was told since the cursor was last rewound, the latest first. -/
def outcomes : History Browse Browsed → Told
  | [] => []
  | (.next, .ok (.got outcome)) :: h => outcome :: outcomes h
  | (.rewind, .ok _) :: _ => []
  | _ :: h => outcomes h

def yielded (told : Told) : List Record := told.filterMap fun
  | .ok record? => record?
  | .error _ => none

/- Records of one table, each behind all that were told before it, and nothing after an outcome
that is none. -/
structure Ordered (table : TableId) (told : Told) : Prop where
  placed : ∀ record ∈ yielded told, ∃ rid, record.rid = some rid ∧ rid.page.table = table
  ascending : (yielded told).Pairwise fun later earlier =>
    ∃ x y, earlier.rid = some x ∧ later.rid = some y ∧ x < y
  fused : told.Pairwise fun later earlier =>
    (∀ record, earlier ≠ .ok (some record)) → later = .ok none

namespace Ordered

variable {table : TableId} {told : Told}

theorem failsOnce (ordered : Ordered table told) :
    told.countP (fun outcome => !outcome.isOk) ≤ 1 := by
  rw [List.countP_eq_length_filter]
  have failures := ordered.fused.filter fun outcome => !outcome.isOk
  have all : ∀ outcome ∈ told.filter fun outcome => !outcome.isOk, ∃ e, outcome = .error e := by
    intro outcome there
    cases outcome with
    | ok record? => cases (List.mem_filter.mp there).2
    | error e => exact ⟨e, rfl⟩
  generalize told.filter (fun outcome => !outcome.isOk) = failed at failures all ⊢
  match failed with
  | [] | [_] => simp
  | later :: earlier :: _ =>
    obtain ⟨e, rfl⟩ := all earlier (by simp)
    obtain ⟨f, rfl⟩ := all later (by simp)
    cases (List.pairwise_cons.mp failures).1 _ List.mem_cons_self nofun

theorem distinct (ordered : Ordered table told) : (yielded told).Nodup := by
  refine ordered.ascending.imp fun {later earlier} behind same => ?_
  obtain ⟨x, y, first, second, before⟩ := behind
  rw [same] at second
  cases first.symm.trans second
  exact Rid.irrefl _ before

end Ordered

/- Besides, no place of a record told is still to come, and where the cursor goes on it has told
nothing but records. -/
structure Recited (table : TableId) (told : Told) (position : Position) : Prop
    extends Ordered table told where
  behind : ∀ record ∈ yielded told, ∀ rid, record.rid = some rid → ¬ position.Ahead rid
  going : position ≠ .exhausted → ∀ outcome ∈ told, ∃ record, outcome = .ok (some record)
  fresh : told = [] → position = .unopened

namespace Recited

variable {table : TableId} {told : Told} {position : Position}

theorem start (table : TableId) : Recited table [] .unopened where
  placed := nofun
  ascending := .nil
  fused := .nil
  behind := nofun
  going := nofun
  fresh _ := rfl

theorem spent (recited : Recited table told position) {outcome : Except Error (Option Record)}
    (nothing : ∀ record, outcome ≠ .ok (some record))
    (after : position = .exhausted → outcome = .ok none) :
    Recited table (outcome :: told) .exhausted := by
  have same : yielded (outcome :: told) = yielded told := by
    unfold yielded
    rw [List.filterMap_cons]
    match outcome with
    | .ok none | .error _ => rfl
    | .ok (some record) => exact absurd rfl (nothing record)
  refine ⟨⟨?_, ?_, ?_⟩, fun _ _ _ _ => id, nofun, nofun⟩
  · exact same ▸ recited.placed
  · exact same ▸ recited.ascending
  · refine List.pairwise_cons.mpr ⟨fun earlier there none => ?_, recited.fused⟩
    refine after (Decidable.byContradiction fun going => ?_)
    obtain ⟨record, told⟩ := recited.going going earlier there
    exact none record told

theorem yield (recited : Recited table told position) {record : Record} {rid : Rid}
    (placed : record.rid = some rid) (home : rid.page.table = table) (ahead : position.Ahead rid)
    (frame : Frame) : Recited table (.ok (some record) :: told)
      (.onPage rid.page.number (rid.slot.toNat + 1) frame) := by
  have running : position ≠ .exhausted := by
    rintro rfl
    exact ahead
  have before {earlier : Record} (there : earlier ∈ yielded told) :
      ∃ x, earlier.rid = some x ∧ x < rid := by
    obtain ⟨x, found, own⟩ := recited.placed earlier there
    exact ⟨x, found, Position.ascends (own.trans home.symm) (recited.behind _ there x found) ahead⟩
  refine ⟨⟨fun other there => ?_, ?_, ?_⟩, fun other there place found => ?_,
    fun _ outcome there => ?_, nofun⟩
  · rcases List.mem_cons.mp there with rfl | there
    · exact ⟨rid, placed, home⟩
    · exact recited.placed other there
  · refine List.pairwise_cons.mpr ⟨fun earlier there => ?_, recited.ascending⟩
    obtain ⟨x, found, less⟩ := before there
    exact ⟨x, rid, found, placed, less⟩
  · refine List.pairwise_cons.mpr ⟨fun earlier there none => ?_, recited.fused⟩
    obtain ⟨record, told⟩ := recited.going running earlier there
    exact absurd told (none record)
  · -- what is still to come now comes behind the new place, and that is the last one told
    intro later
    have passed : ¬ Position.Ahead rid (.onPage rid.page.number (rid.slot.toNat + 1) frame) := by
      rintro (again | ⟨_, again⟩)
      · exact UInt32.lt_irrefl _ again
      · exact Nat.not_succ_le_self _ again
    rcases List.mem_cons.mp there with rfl | there
    · cases found.symm.trans placed
      exact passed later
    · obtain ⟨x, its, less⟩ := before there
      obtain ⟨y, again, own⟩ := recited.placed other there
      cases found.symm.trans its
      cases found.symm.trans again
      exact Rid.irrefl _ (Rid.trans less (Position.ascends (home.trans own.symm) passed later))
  · rcases List.mem_cons.mp there with rfl | there
    · exact ⟨record, rfl⟩
    · exact recited.going running outcome there

end Recited
end Cursor

namespace Cursor

variable {c d : Cursor} {p q : Pool} {told : Told}

def Stood (c : Cursor) (p : Pool) : Prop := ∀ number slot frame,
  c.position = .onPage number slot frame → frame.page.id = ⟨c.file.table, number⟩ ∧
    number.toNat + 1 < UInt32.size ∧ p.Tracks frame

theorem Recited.yields (recited : Recited c.file.table told c.position) (stood : c.Stood p)
    (fitting : p.Fitting) (tidy : q.Tidy) (fits : q.Fitting)
    {outcome : Except Error (Option Record)} (yields : c.Yields p outcome d q) :
    Recited d.file.table (outcome :: told) d.position ∧ d.Stood q := by
  cases yields with
  | spent nothing _ after => exact ⟨recited.spent nothing after, nofun⟩
  | @here number slot frame record position stands taken =>
    obtain ⟨used, found, rfl, behind⟩ := takeSource taken
    obtain ⟨own, inside, tracks⟩ := stood number slot frame stands
    obtain ⟨place, word⟩ := (own ▸ tracks.keeps).place fitting found
    rw [stands] at recited
    refine ⟨word ▸ recited.yield place rfl (.inr ⟨rfl, word.symm ▸ behind⟩) frame, ?_⟩
    rintro _ _ _ ⟨⟩
    exact ⟨own, inside, tracks⟩
  | @further number frame record position _ moves present _ taken first start onward inside =>
    obtain ⟨used, found, rfl, _⟩ := takeSource taken
    have keeps := tidy.keeps _ frame present
    obtain ⟨place, word⟩ := keeps.place fits found
    have ahead : c.position.Ahead ⟨⟨c.file.table, number⟩, .ofNat used⟩ := by
      cases stands : c.position with
      | unopened => trivial
      | exhausted =>
        rw [stands] at start
        cases start
      | onPage before slot other =>
        rw [stands] at start
        cases start
        rw [UInt32.le_iff_toNat_le, Rows.wordNext (stood before slot other stands).2.1] at onward
        exact .inl (UInt32.lt_iff_toNat_lt.mpr (Nat.lt_of_succ_le onward))
    refine ⟨word ▸ recited.yield place rfl ahead frame, ?_⟩
    rintro _ _ _ ⟨⟩
    obtain ⟨_, _, own, _⟩ := keeps
    exact ⟨own, inside, tidy.tracks present⟩

end Cursor

/- The end of every step. -/

theorem HeapFile.visitInside (f : HeapFile) (txn : Option TxnId) (number : UInt32) (p : Pool) :
    (f.visit txn number p).Meets (fun _ _ => True) (fun _ _ => True)
      (fun _ frame? _ => frame? ≠ none → number.toNat + 1 < UInt32.size) p := by
  have counted : (Progress.ended (Pool.onStorage f.count p)).Meets _ _ _ p := Progress.meetsAny _
  refine counted.andThen fun s count q _ => ?_
  by_cases beyond : count ≤ number
  · simp only [beyond, if_true]
    exact absurd rfl
  · simp only [beyond, if_false]
    exact (Progress.meetsAny _).mono (fun _ _ same => same) (fun _ _ same => same)
      fun _ _ _ _ _ => Pool.countedInside beyond

namespace Cursor

variable {c : Cursor} {p : Pool}

/- A search, round by round: a page is visited and, if there are no records on it, the next one.
Others act where a visit has to wait. -/
inductive Unrolls (c : Cursor) :
    UInt32 → Progress Pool (Option Frame) → Progress Pool (Option Record × Position) → Prop
  | fails {number e p} : Unrolls c number (.ended (.error e p)) (.ended (.error e p))
  | beyond {number p} : Unrolls c number (.ended (.ok none p)) (.ended (.ok (none, .exhausted) p))
  | found {number frame record position p}
      (taken : take frame.page number 0 frame = some (record, position)) :
      Unrolls c number (.ended (.ok (some frame) p)) (.ended (.ok (some record, position) p))
  | empty {number frame p whole} (none : take frame.page number 0 frame = none)
      (later : Unrolls c (number + 1) (c.file.visit c.txn (number + 1) p) whole) :
      Unrolls c number (.ended (.ok (some frame) p)) whole
  | waits {number p resume whole} (later : ∀ q, Unrolls c number (resume q) (whole q)) :
      Unrolls c number (.waiting p resume) (.waiting p whole)

theorem seekUnrolls (c : Cursor) {left : Nat} {number : UInt32}
    (enough : UInt32.size ≤ number.toNat + left) (p : Pool) :
    c.Unrolls number (c.file.visit c.txn number p) (c.seek left number p) := by
  induction left generalizing p number with
  | zero => exact absurd number.toNat_lt (Nat.not_lt_of_le enough)
  | succ left ih =>
    have inside := c.file.visitInside c.txn number p
    change c.Unrolls number _ (Progress.andThen _ (c.file.visit c.txn number p))
    generalize c.file.visit c.txn number p = visit at inside ⊢
    induction visit with
    | ended outcome =>
      cases outcome with
      | error e q => exact .fails
      | ok frame? q =>
        cases frame? with
        | none => exact .beyond
        | some frame =>
          cases taken : take frame.page number 0 frame with
          | some x =>
            simp only [Progress.andThen, taken]
            exact .found taken
          | none =>
            simp only [Progress.andThen, taken]
            refine .empty taken (ih ?_ q)
            rw [Rows.wordNext (inside (Option.some_ne_none frame))]
            omega
    | waiting q resume later => exact .waits fun r => later r (inside.2 r trivial).anywhere

def answer (c : Cursor) : Except Error (Option Record × Position) →
    Activity Pool (Except Error (Option Record) × Cursor)
  | .ok (record, position) => pure (.ok record, {c with position})
  | .error e => pure (.error e, {c with position := .exhausted})

theorem nextAnswers (c : Cursor) (p : Pool) :
    c.next p = (c.step p).attempt.andThen c.answer := by
  change Progress.andThen _ (c.step p).attempt = _
  congr 1

/- The cursor is moved on at once, or after a search. -/
inductive Halts (c : Cursor) (p : Pool) : Prop
  | atOnce {outcome} (told : c.next p = .ended outcome)
  | search {number work} (start : c.position.onward? = some number)
      (unrolls : c.Unrolls number (c.file.visit c.txn number p) work)
      (told : c.next p = work.attempt.andThen c.answer)

theorem nextHalts (c : Cursor) (p : Pool) : c.Halts p := by
  have searched {number : UInt32} (start : c.position.onward? = some number)
      (sought : c.step p = c.seek UInt32.size number p) : c.Halts p :=
    .search start (c.seekUnrolls (Nat.le_add_left UInt32.size number.toNat) p)
      (sought ▸ c.nextAnswers p)
  have ended {x : Option Record × Position} (told : c.step p = .ended (.ok x p)) : c.Halts p := by
    have answered := c.nextAnswers p
    rw [told] at answered
    exact .atOnce answered
  cases stands : c.position with
  | exhausted => exact ended (by simp only [step, stands]; rfl)
  | unopened => exact searched (by rw [stands]; rfl) (by simp only [step, stands])
  | onPage number slot frame =>
    have looked : ((get : Instant Pool Pool) : Activity Pool Pool) p = .ended (.ok p p) := rfl
    cases taken : take (p.latest frame) number slot frame with
    | some x =>
      have told : c.step p = .ended (.ok (some x.1, x.2) p) := by
        simp only [step, stands, bind, looked, Progress.andThen, taken]
        rfl
      exact ended told
    | none =>
      refine searched (by rw [stands]; rfl) ?_
      simp only [step, stands, bind, looked, Progress.andThen, taken]

end Cursor
end PagedHeap
