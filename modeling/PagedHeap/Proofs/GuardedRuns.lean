import PagedHeap.Proofs.LockHolders
import PagedHeap.Proofs.Reads

/-! An engine that is asked for anything on behalf of anybody, with volumes whose calls may go
wrong in any way. Its pool stays guarded, and whoever waits finds the pages he has locked as
he left them. -/
namespace PagedHeap

open Pool (Move Moves Final Respects Guarded Whole Reaches)

namespace Operation

def kind : Operation → Act → Prop
  | .request (.scan who _) => Act.reads who
  | o => Act.mild o.txn?

theorem kindMild {o : Operation} {act : Act} (h : o.kind act) : act.mild o.txn? := by
  unfold kind at h
  split at h
  · exact Act.readsMild h
  · exact h

inductive Done : Operation → Response → Pool → Pool → Prop
  | scan {p q : Pool} {who table records} (moves : Moves (Act.reads who) p q)
      (whole : ∃ file, q.tables.get? table = some file ∧
        ∀ txn, who = some txn → q.Numbered table → Whole file txn records q) :
      Done (.request (.scan who table)) (.answered (.listed records)) p q
  | other {p m q : Pool} {o a} (other : ∀ who table, o ≠ .request (.scan who table))
      (moves : Moves (Act.mild o.txn?) p m) (final : Final o.txn? m q) : Done o a p q

namespace Done

variable {o : Operation} {a : Response} {p q : Pool}

theorem guarded (done : Done o a p q) (guarded : p.Guarded) : q.Guarded := by
  cases done with
  | scan moves => exact guarded.mild (moves.mono fun _ => Act.readsMild)
  | other _ moves final => exact final.guarded (guarded.mild moves)

theorem respects (done : Done o a p q) (guarded : p.Guarded) {who : Option TxnId}
    (apart : ∀ txn, o.txn? = some txn → who ≠ some txn) : Respects who p q := by
  cases done with
  | scan moves => exact .ofMild guarded (moves.mono fun _ => Act.readsMild) apart
  | other _ moves final =>
    exact (Respects.ofMild guarded moves apart).trans
      (final.respects (guarded.mild moves) apart)

end Done
end Operation

namespace Engine

variable {α β : Type} {e e' : Engine} {o : Operation}

/- Every stretch is made up of the moves of the operation, and the last one ends as told. -/
def Behaves (o : Operation) (done : α → Pool → Pool → Prop) (work : Progress Engine α)
    (e : Engine) : Prop :=
  work.Meets (fun e e' => Moves o.kind e.pool e'.pool)
    (fun e e' => Respects o.txn? e.pool e'.pool) (fun e a e' => done a e.pool e'.pool) e

namespace Behaves

variable {done : α → Pool → Pool → Prop}

theorem within {work : Activity Pool α} (h : (work e.pool).Meets (Moves o.kind)
    (Respects o.txn?) (fun p a q => done a p q) e.pool) :
    Behaves o done (work.within poolPart e) e :=
  (Progress.Meets.inPart h).mono (fun _ _ same => same.1) (fun _ _ same => same)
    (fun _ _ _ same => same.1)

theorem instant {r : EStateM.Result Error Engine α}
    (h : Ends (fun a e' => done a e.pool e'.pool) (fun e' => Moves o.kind e.pool e'.pool) r) :
    Behaves o done (.ended r) e := Progress.meetsEnded h

theorem answer {work : Progress Engine α} (h : Behaves o done work e) (answer : α → β)
    {told : β → Pool → Pool → Prop} (tells : ∀ a p q, done a p q → told (answer a) p q) :
    Behaves o told (work.andThen fun a e => .ended (.ok (answer a) e)) e :=
  Progress.Meets.andThen h fun _ a _ ended => tells a _ _ ended

end Behaves

theorem reachesMild {work : Progress Pool α} {done : Pool → α → Pool → Prop} {kind : Act → Prop}
    {who : Option TxnId} {p : Pool} (h : Reaches kind who done work p)
    (mild : ∀ act, kind act → act.mild who) :
    work.Meets (Moves (Act.mild who)) (Respects who)
      (fun p a q => ∃ m, Moves (Act.mild who) p m ∧ done m a q) p :=
  h.meets mild fun _ _ others => others.toInterlude

theorem scanBehaves (guarded : e.pool.Guarded) (who : Option TxnId) (table : TableId) :
    Behaves (.request (.scan who table)) (fun records p q =>
      Operation.Done (.request (.scan who table)) (.answered (.listed records)) p q)
      (scan who table e) e := by
  refine tableMeets table .refl fun file found => ?_
  obtain rfl := guarded.named table file found
  cases who with
  | none =>
    have walk : Reaches (Act.reads none) none _ (file.scan none e.pool) e.pool :=
      (Pool.walkReaches guarded.toHoused UInt32.size 0).widen fun _ => And.left
    have walked := Progress.Meets.keep (·.Knows file)
      (fun _ _ known moves => known.later moves.grew)
      (fun _ _ known others => known.later others.grew) found walk
    refine Behaves.within (walked.mono (fun _ _ same => same)
      (fun _ _ others => others.toInterlude) fun p records q ended => ?_)
    obtain ⟨known, m, moves, rfl, _⟩ := ended
    exact .scan moves ⟨file, known.later moves.grew, nofun⟩
  | some txn =>
    refine Behaves.within (((Pool.lastingViews file txn).scanMeets guarded found).mono
      (fun _ _ same => same) (fun _ _ same => same) fun p records q ended => ?_)
    obtain ⟨⟨before, grew⟩, moves, read⟩ := ended
    have there := before.mild (moves.mono fun _ => Act.readsMild)
    have known : q.Knows file := (grew.trans moves.grew).tables _ _ found
    refine .scan moves ⟨file, known, fun other same numbered => ?_⟩
    cases same
    exact read.whole there.toHoused known numbered

theorem finishBehaves {txn : TxnId} {work : Instant Pool Unit} {status : Status} {a : Unit → β}
    {told : β → Pool → Pool → Prop}
    (h : Ends (fun _ q => told (a ()) e.pool q) (Moves o.kind e.pool) (work e.pool)) :
    Behaves o told ((Progress.ended (finish txn work status e)).andThen
      fun x e => .ended (.ok (a x) e)) e := by
  have ended : Behaves o (fun _ => told (a ())) (.ended (finish txn work status e)) e := by
    refine .instant ((finishEnds h).mono (fun _ _ ended => ended.2.1) fun e' failed => ?_)
    rcases failed with ⟨_, rfl⟩ | ⟨_, moves, _⟩
    · exact .refl
    · exact moves
  exact ended.answer a fun _ _ _ done => done

theorem requestBehaves (guarded : e.pool.Guarded) (r : Request) :
    Behaves (.request r) (fun a p q => Operation.Done (.request r) (.answered a) p q)
      (r.work e) e := by
  cases r with
  | begin => exact .other nofun .refl .nothing
  | insert txn table values =>
    refine (Behaves.within (o := .request (.insert txn table values))
      (reachesMild (Pool.insertReaches guarded.toHoused table _)
        fun _ own => Act.seeksMild own.1)).answer _ fun rid p q ended => ?_
    obtain ⟨m, moves, filled⟩ := ended
    exact .other nofun moves (.fill rfl filled.1)
  | delete txn rid =>
    refine (Behaves.within (o := .request (.delete txn rid))
      (reachesMild (Pool.deleteReaches guarded.toHoused (some rid))
        fun _ => Act.seeksMild)).answer _ fun _ p q ended => ?_
    obtain ⟨m, moves, place, _, cleared⟩ := ended
    exact .other nofun moves (.clear rfl cleared)
  | scan who table => exact (scanBehaves guarded who table).answer _ fun _ _ _ done => done
  | commit txn =>
    refine finishBehaves ((Pool.commitEnds guarded.toHoused txn).mono (fun _ q ended => ?_)
      fun q failed => ?_)
    · obtain ⟨m, moves, clean, given⟩ := ended
      rw [← moves.saved.2.1] at clean
      exact .other nofun (moves.mono fun _ => Act.savesMild) (.leave rfl clean given)
    · exact failed.1.mono fun _ => Act.savesMild
  | abort txn =>
    refine finishBehaves ((Pool.abortEnds txn e.pool).mono (fun _ q ended => ?_)
      fun _ none => none.elim)
    obtain ⟨m, forgot, given⟩ := ended
    exact .other nofun .refl (.abandon rfl forgot given)

theorem flushBehaves (guarded : e.pool.Guarded) :
    Behaves .flush (fun _ p q => Operation.Done .flush .flushed p q)
      (.ended (flush e)) e := by
  have saved : Ends (fun _ q => Moves (Operation.kind .flush) e.pool q)
      (Moves (Operation.kind .flush) e.pool) (Pool.flushAll e.pool) :=
    (Pool.flushAllEnds guarded.toHoused).mono
      (fun _ _ saved => saved.1.mono fun _ => Act.savesMild)
      fun _ lost => lost.1.mono fun _ => Act.savesMild
  exact .instant (Ends.inPart (saved.mono (fun _ _ moves => .other nofun moves .nothing)
    fun _ moves => moves))

theorem operationBehaves (guarded : e.pool.Guarded) (o : Operation)
    (closed : ∀ name width, o ≠ .openTable name width) :
    Behaves o (fun a p q => o.Done a p q) (o.work e) e := by
  cases o with
  | openTable name width => exact absurd rfl (closed name width)
  | request r => exact (requestBehaves guarded r).answer _ fun _ _ _ done => done
  | flush => exact (flushBehaves guarded).answer _ fun _ _ _ done => done

/- Runs. -/

/- An engine whose tables are all open, at which some operations are permitted. -/
def steady (permits : Operation → Prop) : Service Engine Operation Response :=
  serving fun o _ => permits o ∧ ∀ name width, o ≠ .openTable name width

def Guarding (extra : History Operation Response → Engine → Prop)
    (h : History Operation Response) (e : Engine) : Prop := e.pool.Guarded ∧ extra h e

def Stretches (permits : Operation → Prop) (o : Operation) (e e' : Engine) : Prop :=
  permits o ∧ Moves o.kind e.pool e'.pool

def Bystanders (o : Operation) (e e' : Engine) : Prop := Respects o.txn? e.pool e'.pool

def Answers (permits : Operation → Prop) (o : Operation) (e : Engine) (a : Response)
    (e' : Engine) : Prop := permits o ∧ o.Done a e.pool e'.pool

/- What is to be shown of something that is kept besides the guards. -/
structure Kept (permits : Operation → Prop)
    (extra : History Operation Response → Engine → Prop) : Prop where
  stretch : ∀ {h e e'} o, permits o → e.pool.Guarded → Moves o.kind e.pool e'.pool →
    extra h e → extra h e'
  fails : ∀ {h e} o cause, extra h e → extra ((o, .error cause) :: h) e
  done : ∀ {h e e'} o a, permits o → e.pool.Guarded → o.Done a e.pool e'.pool →
    extra h e → extra ((o, .ok a) :: h) e'

variable {permits : Operation → Prop} {extra : History Operation Response → Engine → Prop}

theorem lawOfGuards (kept : Kept permits extra) : (steady permits).Law (Guarding extra)
    (Stretches permits) Bystanders (Answers permits) where
  works o holds admitted := (operationBehaves holds.1 o admitted.2).mono
    (fun _ _ moves => ⟨admitted.1, moves⟩) (fun _ _ same => same)
    (fun _ _ _ done => ⟨admitted.1, done⟩)
  stops o holds stretch := ⟨holds.1.mild (stretch.2.mono fun _ => Operation.kindMild),
    kept.stretch o stretch.1 holds.1 stretch.2 holds.2⟩
  fails o cause holds stretch := ⟨holds.1.mild (stretch.2.mono fun _ => Operation.kindMild),
    kept.fails o cause (kept.stretch o stretch.1 holds.1 stretch.2 holds.2)⟩
  ends o a holds done := ⟨done.2.guarded holds.1, kept.done o a done.1 holds.1 done.2 holds.2⟩
  idle _ holds := .refl holds.1
  join _ _ _ _ first second := first.trans second
  aside _ _ holds free stretch :=
    .ofMild holds.1 (stretch.2.mono fun _ => Operation.kindMild) free
  asideDone _ _ _ holds free done := done.2.respects holds.1 free

end Engine
end PagedHeap
