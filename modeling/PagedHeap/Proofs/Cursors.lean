import PagedHeap.Proofs.CacheLaws
import PagedHeap.Proofs.Listing

/-! Cursors among calls. A step takes a record of the copy of a page that the cursor stands on, or
of a page that it comes to and locks, or it finds the end of the table; while it waits for a lock
others act. -/
namespace PagedHeap

open Pool (Moves Interlude Reaches Merely)

namespace Page

theorem getSource {p : Page} {slot : Nat} {record : Record} (found : p.get? slot = some record) :
    p.isUsed slot = true ∧ record = ⟨some ⟨p.id, .ofNat slot⟩, p.slotBytes slot⟩ := by
  unfold get? at found
  split at found
  · rename_i used
    exact ⟨used, (Option.some.inj found).symm⟩
  · cases found

theorem getAlike {p q : Page} (key : p.id = q.id) (layout : p.layout = q.layout)
    (image : p.image = q.image) (slot : Nat) : p.get? slot = q.get? slot := by
  cases p
  cases q
  cases key
  cases layout
  cases image
  rfl

end Page

def Pool.Fitting (p : Pool) : Prop :=
  ∀ table its, p.tables.get? table = some its → its.layout.slots ≤ UInt32.size

theorem Pool.Keeps.place {p : Pool} {page : PageId} {frame : Frame} (keeps : p.Keeps page frame)
    (fitting : p.Fitting) {used : Nat} {record : Record}
    (found : frame.page.get? used = some record) :
    record.rid = some ⟨page, .ofNat used⟩ ∧ (UInt32.ofNat used).toNat = used := by
  obtain ⟨file, known, rfl, layout, _⟩ := keeps
  obtain ⟨isUsed, rfl⟩ := Page.getSource found
  refine ⟨rfl, UInt32.toNat_ofNat_of_lt' (Nat.lt_of_lt_of_le (Page.usedInRange isUsed) ?_)⟩
  rw [Page.slots, layout]
  exact fitting _ file known

def Position.onward? : Position → Option UInt32
  | .unopened => some 0
  | .onPage number _ _ => some (number + 1)
  | .exhausted => none

namespace Cursor

variable {c : Cursor} {p : Pool}

def Stands (c : Cursor) (frame : Frame) : Prop :=
  ∃ number slot, c.position = .onPage number slot frame

theorem takeSource {page : Page} {number : UInt32} {slot : Nat} {frame : Frame} {record : Record}
    {position : Position} (taken : take page number slot frame = some (record, position)) :
    ∃ used, page.get? used = some record ∧ position = .onPage number (used + 1) frame ∧
      slot ≤ used := by
  simp only [take, Option.bind_eq_bind, Option.bind_eq_some_iff, Option.pure_def,
    Option.some.injEq, Prod.mk.injEq] at taken
  obtain ⟨used, next, record', found, rfl, rfl⟩ := taken
  exact ⟨used, found, rfl, (Page.nextUsedSome.mp next).1⟩

inductive Arrives (c : Cursor) (first : UInt32) : Option Record × Position → Pool → Prop
  | nowhere {q : Pool} : Arrives c first (none, .exhausted) q
  | onPage {q : Pool} {number frame record position}
      (present : q.resident.get? ⟨c.file.table, number⟩ = some frame)
      (locked : ∀ txn, c.txn = some txn →
        (q.locks.access? txn ⟨c.file.table, number⟩).isSome = true)
      (taken : take frame.page number 0 frame = some (record, position))
      (onward : first ≤ number) (inside : number.toNat + 1 < UInt32.size) :
      Arrives c first (some record, position) q

theorem seekReaches (housed : p.Housed) (c : Cursor) (left : Nat) (number : UInt32) :
    Reaches (Act.readsOn c.txn c.file.table) c.txn (Merely (c.Arrives number))
      (c.seek left number p) p := by
  induction left generalizing p number with
  | zero => exact .lift ⟨.refl, .nowhere⟩
  | succ left ih =>
    refine (Pool.visitReaches c.txn c.file housed number).bind housed
      fun frame? q there _ told => ?_
    cases frame? with
    | none => exact .lift ⟨.refl, .nowhere⟩
    | some frame =>
      obtain ⟨present, locked, inside⟩ := told
      cases taken : take frame.page number 0 frame with
      | none =>
        simp only [taken]
        refine (ih there (number + 1)).mono (fun _ same => same) fun _ x r arrived => ?_
        obtain ⟨rfl, arrives⟩ := arrived
        refine ⟨rfl, ?_⟩
        cases arrives with
        | nowhere => exact .nowhere
        | onPage present locked taken onward inside' =>
          rw [UInt32.le_iff_toNat_le, Rows.wordNext inside] at onward
          exact .onPage present locked taken
            (UInt32.le_iff_toNat_le.mpr (Nat.le_of_succ_le onward)) inside'
      | some x =>
        simp only [taken]
        exact .lift ⟨.refl, .onPage present locked taken (UInt32.le_refl number) inside⟩

/- What a step comes to: nothing more, a record of the page the cursor stands on, or one of a
page that it has come to. -/
inductive Yields (c : Cursor) (p : Pool) : Except Error (Option Record) → Cursor → Pool → Prop
  | spent {outcome q} (nothing : ∀ record, outcome ≠ .ok (some record))
      (moves : Moves (Act.reads c.txn) p q) (after : c.position = .exhausted → outcome = .ok none) :
      Yields c p outcome {c with position := .exhausted} q
  | here {number slot frame record position} (stands : c.position = .onPage number slot frame)
      (taken : take (p.latest frame) number slot frame = some (record, position)) :
      Yields c p (.ok (some record)) {c with position} p
  | further {number frame record position q} (moves : Moves (Act.reads c.txn) p q)
      (present : q.resident.get? ⟨c.file.table, number⟩ = some frame)
      (locked : ∀ txn, c.txn = some txn →
        (q.locks.access? txn ⟨c.file.table, number⟩).isSome = true)
      (taken : take frame.page number 0 frame = some (record, position)) {first}
      (start : c.position.onward? = some first) (onward : first ≤ number)
      (inside : number.toNat + 1 < UInt32.size) :
      Yields c p (.ok (some record)) {c with position} q

theorem Yields.moves {outcome : Except Error (Option Record)} {d : Cursor} {q : Pool}
    (yields : c.Yields p outcome d q) : Moves (Act.reads c.txn) p q := by
  cases yields with
  | spent _ moves | further moves => exact moves
  | here => exact .refl

theorem Yields.own {outcome : Except Error (Option Record)} {d : Cursor} {q : Pool}
    (yields : c.Yields p outcome d q) : Moves (Act.byOwn c.txn) p q :=
  yields.moves.mono fun _ reads => Act.seeksOwn (Act.readsSeeks reads)

theorem stepMeets (housed : p.Housed) (c : Cursor) :
    (c.step p).Meets (Moves (Act.reads c.txn)) (Interlude c.txn)
      (fun p x q => c.Yields p (.ok x.1) {c with position := x.2} q) p := by
  have sought {number : UInt32} (start : c.position.onward? = some number) :
      (c.seek UInt32.size number p).Meets (Moves (Act.reads c.txn))
        (Interlude c.txn) (fun p x q => c.Yields p (.ok x.1) {c with position := x.2} q) p := by
    refine Progress.Meets.mono ((c.seekReaches housed UInt32.size number).widen fun _ => And.left)
      (fun _ _ same => same) (fun _ _ same => same) fun s x q ended => ?_
    obtain ⟨_, moves, rfl, arrives⟩ := ended
    cases arrives with
    | nowhere => exact .spent nofun moves fun _ => rfl
    | onPage present locked taken onward inside =>
      exact .further moves present locked taken start onward inside
  unfold step
  cases stands : c.position with
  | exhausted => exact .spent nofun .refl fun _ => rfl
  | unopened => exact sought (by rw [stands]; rfl)
  | onPage number slot frame =>
    have looked : ((get : Instant Pool Pool) : Activity Pool Pool) p = .ended (.ok p p) := rfl
    simp only [bind, looked, Progress.andThen]
    cases taken : take (p.latest frame) number slot frame with
    | none => exact sought (by rw [stands]; rfl)
    | some x => exact .here stands taken

theorem nextMeets (housed : p.Housed) (c : Cursor) :
    (c.next p).Meets (Moves (Act.reads c.txn)) (Interlude c.txn)
      (fun p x q => c.Yields p x.1 x.2 q) p := by
  by_cases past : c.position = .exhausted
  · have still : c.next p = .ended (.ok (.ok none, {c with position := .exhausted}) p) := by
      simp only [next, step, past]
      rfl
    rw [still]
    exact .spent nofun .refl fun _ => rfl
  · refine Progress.Meets.andThen (c.stepMeets housed).attempt fun s x q ended => ?_
    cases x with
    | ok x => exact ended
    | error e => exact .spent nofun ended fun now => absurd now past

end Cursor

/- A cursor among calls. -/

structure Browsing where
  pool : Pool
  cursor : Cursor

def Browsing.poolPart : Part Browsing Pool := ⟨Browsing.pool, fun s pool => {s with pool},
  fun _ _ => rfl, fun _ _ _ => rfl⟩

theorem Browsing.cursorKept {s t : Browsing} (same : t = poolPart.set s t.pool) :
    t.cursor = s.cursor := by
  rw [same]
  rfl

inductive Browse where
  | call (call : PoolCall)
  | next
  | rewind

inductive Browsed where
  | done
  | got (outcome : Except Error (Option Record))

namespace Browse

def txn? (who : Option TxnId) : Browse → Option TxnId
  | .call asked => asked.txn?
  | .next | .rewind => who

def work : Browse → Activity Browsing Browsed
  | .call asked => do
    asked.work.within Browsing.poolPart
    return .done
  | .next => do
    let s ← (get : Instant Browsing Browsing)
    let answer ← s.cursor.next.within Browsing.poolPart
    (modify fun s => {s with cursor := answer.2} : Instant Browsing Unit)
    return .got answer.1
  | .rewind => do
    (modify fun s => {s with cursor := s.cursor.rewind} : Instant Browsing Unit)
    return .done

variable {s : Browsing} {stretch others : Pool → Pool → Prop}

theorem callWork {call : PoolCall} {done : Pool → Unit → Pool → Prop}
    (h : (call.work s.pool).Meets stretch others done s.pool) :
    ((Browse.call call).work s).Meets (fun a b => b.cursor = a.cursor ∧ stretch a.pool b.pool)
      (fun a b => others a.pool b.pool)
      (fun a x b => x = .done ∧ b.cursor = a.cursor ∧ done a.pool () b.pool) s := by
  have whole := Progress.Meets.inPart (show Progress.Meets _ _ _ _ (Browsing.poolPart.get s) from h)
  exact (whole.mono (fun _ _ moved => ⟨Browsing.cursorKept moved.2, moved.1⟩)
    (fun _ _ same => same) fun _ _ _ same => same).andThen
    fun _ _ _ ended => ⟨rfl, Browsing.cursorKept ended.2, ended.1⟩

theorem nextWork {done : Pool → Except Error (Option Record) × Cursor → Pool → Prop}
    (h : (s.cursor.next s.pool).Meets stretch others done s.pool) :
    (Browse.next.work s).Meets (fun a b => b.cursor = a.cursor ∧ stretch a.pool b.pool)
      (fun a b => others a.pool b.pool ∧ b.cursor = a.cursor)
      (fun a x b => ∃ outcome, x = .got outcome ∧ a.cursor = s.cursor ∧
        done a.pool (outcome, b.cursor) b.pool) s := by
  obtain ⟨pool, cursor⟩ := s
  have whole := Progress.Meets.inPart
    (show Progress.Meets _ _ _ _ (Browsing.poolPart.get ⟨pool, cursor⟩) from h)
  have kept := (whole.mono (fun _ _ same => same)
    (fun a b (acted : others a.pool b.pool ∧ b.cursor = a.cursor) => acted.1)
    (fun _ _ _ same => same)).keep (fun u => u.cursor = cursor)
    (fun _ _ before moved => (Browsing.cursorKept moved.2).trans before)
    (fun _ _ before acted => acted.2.trans before) rfl
  refine (kept.mono (fun _ _ moved => ⟨Browsing.cursorKept moved.2, moved.1⟩)
    (fun _ _ same => same) fun _ _ _ same => same).andThen fun _ x _ ended => ?_
  exact ⟨x.1, rfl, ended.1, ended.2.1⟩

end Browse

def Cursor.service (who : Option TxnId) : Service Browsing Browse Browsed where
  txn? := Browse.txn? who
  work := Browse.work
  Admits
    | .call call, s => Pool.service.Admits call s.pool
    | _, _ => True

end PagedHeap
