import PagedHeap.Proofs.CursorOrder
import PagedHeap.Proofs.SureCalls

/-! Cursors leave nothing out. A record that stays where it is, from before the first step of a
cursor until this has found the end of the table, is told exactly once, whatever becomes of the
copies of its page meanwhile: the cursor is on its way to the page, or it keeps a copy with the
record on it. -/
namespace PagedHeap

open Pool (Moves Interlude Reaches Merely)

namespace Pool

variable {p q : Pool} {file : HeapFile} {rid : Rid} {data : Bytes}

/- A record is seen at its place. -/
structure InPlace (p : Pool) (file : HeapFile) (rid : Rid) (data : Bytes) : Prop where
  known : p.Knows file
  home : rid.page.table = file.table
  row : p.rows rid = some data

/- No copy of the page has the record. -/
def Lost (p : Pool) (file : HeapFile) (rid : Rid) (data : Bytes) : Prop :=
  p.Copies rid.page fun image => file.layout.row? image rid.slot.toNat ≠ some data

namespace InPlace

theorem found (inPlace : p.InPlace file rid data) : p.tables.get? rid.page.table = some file :=
  inPlace.home ▸ inPlace.known

theorem seen (inPlace : p.InPlace file rid data) : ∃ image, p.view? rid.page = some image ∧
    file.layout.row? image rid.slot.toNat = some data := by
  have row := inPlace.row
  simp only [rows, rowsOf, inPlace.found, Option.bind_some, Option.bind_eq_some_iff] at row
  exact row

theorem inside (inPlace : p.InPlace file rid data) (housed : p.Housed) :
    rid.page.number.toNat < p.storage.pages file.volume := by
  obtain ⟨_, seen, _⟩ := inPlace.seen
  exact viewInside housed inPlace.found seen

theorem shown (inPlace : p.InPlace file rid data) (housed : p.Housed) {frame : Frame}
    (present : p.resident.get? rid.page = some frame) :
    frame.page.get? rid.slot.toNat = some ⟨some rid, data⟩ := by
  obtain ⟨image, seen, row⟩ := inPlace.seen
  obtain ⟨other, same, key, layout, _⟩ := housed.keeps _ frame present
  rw [inPlace.found] at same
  cases same
  rw [viewResident present] at seen
  cases seen
  rw [← layout, Page.rowOf] at row
  split at row
  · rename_i used
    cases row
    simp only [Page.get?, used, if_true, key, UInt32.ofNat_toNat]
  · cases row

theorem ofView (inPlace : p.InPlace file rid data) (tables : q.tables = p.tables)
    (view : q.view? rid.page = p.view? rid.page) : q.InPlace file rid data where
  known := show q.tables.get? file.table = some file from tables ▸ inPlace.known
  home := inPlace.home
  row := (rowsOfSame tables view).trans inPlace.row

theorem notLost (inPlace : p.InPlace file rid data) : ¬ p.Lost file rid data := by
  intro lost
  obtain ⟨image, seen, row⟩ := inPlace.seen
  cases present : p.resident.get? rid.page with
  | some frame =>
    rw [viewResident present] at seen
    exact lost image (.inr ⟨frame, present, Option.some.inj seen⟩) row
  | none =>
    rw [viewAbsent present] at seen
    exact lost image (.inl seen) row

/- A volume may show something else than a clean copy if other tables are on it, so a record that
is in place may be lost when its page leaves the cache. -/
theorem move (inPlace : p.InPlace file rid data) {who : Option TxnId} {act : Act}
    (reads : act.reads who) (move : Move act p q) :
    q.InPlace file rid data ∨ q.Lost file rid data := by
  have tables := (move.sizedReads reads).tables
  cases move with
  | aside seen => exact .inl (inPlace.ofView tables (by simp only [view?, imageSeen seen]))
  | load absent space found copied =>
    exact .inl (inPlace.ofView tables ((Move.load absent space found copied).loadViews _))
  | take => exact .inl (inPlace.ofView tables rfl)
  | @evict _ page =>
    have left := p.residentDrop page rid.page
    by_cases own : page = rid.page
    · rw [if_pos own] at left
      by_cases shown : (p.drop page).rows rid = some data
      · exact .inl ⟨show (p.drop page).tables.get? file.table = some file from
          tables ▸ inPlace.known, inPlace.home, shown⟩
      · refine .inr fun image copy row => shown ?_
        obtain below | ⟨frame, present, _⟩ := copy
        · have known : (p.drop page).tables.get? rid.page.table = some file :=
            tables ▸ inPlace.found
          simp only [rows, rowsOf, known, viewAbsent left, below, Option.bind_some, row]
        · rw [left] at present
          cases present
    · rw [if_neg own] at left
      refine .inl (inPlace.ofView tables ?_)
      simp only [view?, left, image?, dropTables, dropStorage]
  | _ => exact reads.elim

end InPlace

theorem Lost.moves (lost : p.Lost file rid data) {who : Option TxnId}
    (moves : Moves (Act.reads who) p q) : q.Lost file rid data :=
  Copies.moves lost (moves.mono fun _ => Act.readsProbes)

structure Traced (p : Pool) (file : HeapFile) (rid : Rid) (data : Bytes) : Prop where
  housed : p.Housed
  there : p.InPlace file rid data ∨ p.Lost file rid data
  numbered : p.Numbered file.table

theorem Traced.moves (traced : p.Traced file rid data) {who : Option TxnId}
    (moves : Moves (Act.reads who) p q) : q.Traced file rid data where
  housed := traced.housed.moves moves
  there := moves.within
    (fun p q => p.InPlace file rid data ∨ p.Lost file rid data →
      q.InPlace file rid data ∨ q.Lost file rid data)
    (fun _ same => same) (fun _ _ _ first second same => second (first same))
    (fun _ _ _ reads move same =>
      same.elim (fun inPlace => inPlace.move reads move)
        fun lost => .inr (lost.moves (.one reads move)))
    traced.there
  numbered := moves.sizedReads.numbered traced.numbered

end Pool

namespace Cursor

variable {c : Cursor} {p q : Pool} {rid : Rid} {data : Bytes}

def Meant (rid : Rid) (data : Bytes) (x : Option Record × Position) : Prop :=
  x.1 = some ⟨some rid, data⟩ ∨ x.2.Ahead rid

theorem takeFirst {page : Page} {slot wanted : Nat} (isUsed : page.isUsed wanted = true)
    (reached : slot ≤ wanted) (number : UInt32) (frame : Frame) : ∃ used record,
      take page number slot frame = some (record, .onPage number (used + 1) frame) ∧
      page.get? used = some record ∧ used ≤ wanted := by
  cases next : page.nextUsed? slot with
  | none =>
    rw [Page.nextUsedNone.mp next wanted reached] at isUsed
    cases isUsed
  | some used =>
    obtain ⟨_, there, before⟩ := Page.nextUsedSome.mp next
    have found : page.get? used = some _ := if_pos there
    refine ⟨used, _, ?_, found, Nat.le_of_not_lt fun behind => ?_⟩
    · simp only [take, next, Option.bind_eq_bind, Option.bind_some, found]
      rfl
    · rw [before wanted reached behind] at isUsed
      cases isUsed

/- A page with a record ahead is not passed by: what is taken first is this record, or it comes
before it. -/
theorem takeMeant {page : Page} {number : UInt32} {slot : Nat} {frame : Frame}
    (ahead : Position.Ahead rid (.onPage number slot frame))
    (shown : number = rid.page.number → slot ≤ rid.slot.toNat →
      page.get? rid.slot.toNat = some ⟨some rid, data⟩) :
    match take page number slot frame with
    | some (record, position) => Meant rid data (some record, position)
    | none => number < rid.page.number := by
  rcases ahead with later | ⟨here, reached⟩
  · cases taken : take page number slot frame with
    | none => exact later
    | some x =>
      obtain ⟨used, _, same, _⟩ := takeSource taken
      exact .inr (same ▸ .inl later)
  · have held := shown here reached
    obtain ⟨used, record, taken, found, least⟩ :=
      takeFirst (Page.getSource held).1 reached number frame
    rw [taken]
    rcases Nat.lt_or_eq_of_le least with before | rfl
    · exact .inr (.inr ⟨here, before⟩)
    · exact .inl (found.symm.trans held)

/- What others do while the cursor waits: the record is in place before and after it, and the pages
of the table can be counted in words. -/
structure Aside (c : Cursor) (rid : Rid) (data : Bytes) (p q : Pool) : Prop where
  interlude : Interlude c.txn p q
  before : p.InPlace c.file rid data
  after : q.InPlace c.file rid data
  numbered : q.Numbered c.file.table

theorem seekLost (others : Pool → Pool → Prop) (fewer : ∀ a b, others a b → c.Aside rid data a b)
    (housed : p.Housed) (lost : p.Lost c.file rid data) (left : Nat) (number : UInt32) :
    (c.seek left number p).Meets (fun _ _ => True) others
      (fun _ _ q => q.Lost c.file rid data) p := by
  have reaches := (c.seekReaches housed left number).widen fun _ => And.left
  generalize c.seek left number p = work at reaches ⊢
  cases work with
  | ended outcome =>
    cases outcome with
    | ok x q =>
      obtain ⟨_, moves, rfl, _⟩ := reaches
      exact lost.moves moves
    | error e q => trivial
  | waiting q resume =>
    exact ⟨trivial, fun r acted => absurd (lost.moves reaches.1) (fewer q r acted).before.notLost⟩

theorem seekMeant (others : Pool → Pool → Prop) (fewer : ∀ a b, others a b → c.Aside rid data a b)
    (housed : p.Housed) (inPlace : p.InPlace c.file rid data) (numbered : p.Numbered c.file.table)
    {left : Nat} {number : UInt32} (enough : UInt32.size ≤ number.toNat + left)
    (ahead : number ≤ rid.page.number) : (c.seek left number p).Meets (fun _ _ => True) others
      (fun _ x q => q.Lost c.file rid data ∨ Meant rid data x) p := by
  induction left generalizing p number with
  | zero => exact absurd number.toNat_lt (Nat.not_lt_of_le enough)
  | succ left ih =>
    have visit := ((Pool.visitReaches c.txn c.file housed number).meets
      (fun _ => And.left) fun a b acted => (fewer a b acted).interlude).keep
      (fun q => q.Traced c.file rid data) (fun _ _ before moves => before.moves moves)
      (fun a b _ acted => ⟨(fewer a b acted).interlude.housed, .inl (fewer a b acted).after,
        (fewer a b acted).numbered⟩) ⟨housed, .inl inPlace, numbered⟩
    refine (visit.mono (fun _ _ _ => trivial) (fun _ _ same => same) fun _ _ _ same => same).andThen
      fun s frame? q ended => ?_
    obtain ⟨before, _, moves, rfl, told⟩ := ended
    rename_i q
    obtain ⟨housed, here | lost, numbered⟩ := before.moves moves
    · cases frame? with
      | none =>
        -- the page of the record is counted, so the end is not before it
        have inside := here.inside housed
        have beyond : UInt32.ofNat (q.storage.pages c.file.volume) ≤ number := told
        rw [UInt32.le_iff_toNat_le] at ahead
        rw [UInt32.le_iff_toNat_le,
          UInt32.toNat_ofNat_of_lt' (numbered c.file here.known)] at beyond
        omega
      | some frame =>
        obtain ⟨present, _, inside⟩ := told
        have due : Position.Ahead rid (.onPage number 0 frame) := by
          rcases wordTotal number rid.page.number with before | same | behind
          · exact .inl before
          · exact .inr ⟨same, Nat.zero_le _⟩
          · exact absurd ahead (UInt32.not_le.mpr behind)
        have met := takeMeant due fun same _ => by
          rw [← here.home, same] at present
          exact here.shown housed present
        cases taken : take frame.page number 0 frame with
        | some x =>
          rw [taken] at met
          simp only [taken]
          exact .inr met
        | none =>
          rw [taken] at met
          simp only [taken]
          refine (ih housed here numbered ?_ ?_).anywhere
          · rw [Rows.wordNext inside]
            omega
          · rw [UInt32.le_iff_toNat_le, Rows.wordNext inside]
            exact Nat.succ_le_of_lt (UInt32.lt_iff_toNat_lt.mp met)
    · cases frame? with
      | none => exact .inl lost
      | some frame =>
        cases taken : take frame.page number 0 frame with
        | some x =>
          simp only [taken]
          exact .inl lost
        | none =>
          simp only [taken]
          exact ((seekLost others fewer housed lost left (number + 1)).mono (fun _ _ same => same)
            (fun _ _ same => same) fun _ _ _ lost => .inl lost).anywhere

def Shows (c : Cursor) (p : Pool) (rid : Rid) (data : Bytes) : Prop := ∀ number slot frame,
  c.position = .onPage number slot frame → number = rid.page.number → slot ≤ rid.slot.toNat →
    (p.latest frame).get? rid.slot.toNat = some ⟨some rid, data⟩

theorem stepMeant (others : Pool → Pool → Prop) (fewer : ∀ a b, others a b → c.Aside rid data a b)
    (housed : p.Housed) (inPlace : p.InPlace c.file rid data) (numbered : p.Numbered c.file.table)
    (stood : c.Stood p) (shows : c.Shows p rid data) (ahead : c.position.Ahead rid) :
    (c.step p).Meets (fun _ _ => True) others
      (fun _ x q => q.Lost c.file rid data ∨ Meant rid data x) p := by
  unfold step
  cases stands : c.position with
  | exhausted =>
    rw [stands] at ahead
    exact ahead.elim
  | unopened =>
    exact seekMeant others fewer housed inPlace numbered (Nat.le_add_left ..)
      (UInt32.le_iff_toNat_le.mpr (Nat.zero_le _))
  | onPage number slot frame =>
    have looked : ((get : Instant Pool Pool) : Activity Pool Pool) p = .ended (.ok p p) := rfl
    simp only [bind, looked, Progress.andThen]
    rw [stands] at ahead
    have met := takeMeant ahead (shows number slot frame stands)
    cases taken : take (p.latest frame) number slot frame with
    | some x =>
      rw [taken] at met
      exact .inr met
    | none =>
      rw [taken] at met
      refine seekMeant others fewer housed inPlace numbered (Nat.le_add_left ..) ?_
      rw [UInt32.le_iff_toNat_le, Rows.wordNext (stood number slot frame stands).2.1]
      exact Nat.succ_le_of_lt (UInt32.lt_iff_toNat_lt.mp met)

/- If the place is ahead, the step fails, or it yields the record, or the place is ahead still. -/
def Covers (rid : Rid) (data : Bytes) (before : Position)
    (outcome : Except Error (Option Record)) (after : Position) : Prop :=
  before.Ahead rid → (∃ e, outcome = .error e) ∨ outcome = .ok (some ⟨some rid, data⟩) ∨
    after.Ahead rid

theorem nextCovers (others : Pool → Pool → Prop) (fewer : ∀ a b, others a b → c.Aside rid data a b)
    (housed : p.Housed) (inPlace : p.InPlace c.file rid data) (numbered : p.Numbered c.file.table)
    (stood : c.Stood p) (shows : c.Shows p rid data) :
    (c.next p).Meets (fun _ _ => True) others (fun _ x q => q.InPlace c.file rid data →
      Covers rid data c.position x.1 x.2.position) p := by
  by_cases ahead : c.position.Ahead rid
  · refine (stepMeant others fewer housed inPlace numbered stood shows ahead).attempt.andThen
      fun _ x q met => ?_
    cases x with
    | error e => exact fun _ _ => .inl ⟨e, rfl⟩
    | ok x =>
      exact fun here _ => .inr ((met.resolve_left here.notLost).imp (congrArg Except.ok) id)
  · exact (Progress.meetsAny _).mono (fun _ _ same => same) (fun _ _ _ => trivial)
      fun _ _ _ _ _ now => absurd now ahead

end Cursor
end PagedHeap
