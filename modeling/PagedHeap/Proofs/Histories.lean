import PagedHeap.Proofs.Endings
import PagedHeap.Proofs.Traffic

/-! What the answers given so far say about the tables. A transaction has made the changes
that were answered since it last ended; a commit adds them to what lasts, an abort drops
them. What a pool holds is told by that alone: the changes of commits are on the volumes, and
those of a transaction under way show on the pages it has to itself. -/
namespace PagedHeap

inductive Request where
  | begin
  | insert (txn : TxnId) (table : TableId) (values : List Int32)
  | delete (txn : TxnId) (rid : Rid)
  | scan (who : Option TxnId) (table : TableId)
  | commit (txn : TxnId)
  | abort (txn : TxnId)

inductive Answer where
  | began (txn : TxnId)
  | placed (rid : Rid)
  | listed (records : List Record)
  | done
  deriving DecidableEq

abbrev Event := Request × Except Error Answer

abbrev Log := History Request Answer

/- Changes of single places, the latest first. -/
abbrev Changes := List (Rid × Option Bytes)

def Rows.replay (rows : Rows) : Changes → Rows
  | [] => rows
  | (rid, row) :: before => (rows.replay before).set rid row

namespace Event

def change? : Event → Option (TxnId × Rid × Option Bytes)
  | (.insert txn _ values, .ok (.placed rid)) => some (txn, rid, some (Record.ofValues values).data)
  | (.delete txn rid, .ok _) => some (txn, rid, none)
  | _ => none

def ended? : Event → Option TxnId
  | (.commit txn, .ok _) | (.abort txn, .ok _) => some txn
  | _ => none

def committed? : Event → Option TxnId
  | (.commit txn, .ok _) => some txn
  | _ => none

end Event

namespace Log

/- The changes of a transaction since it last ended. -/
def own (txn : TxnId) : Log → Changes
  | [] => []
  | event :: before =>
    if Event.ended? event = some txn then []
    else match Event.change? event with
      | some (maker, change) => if maker = txn then change :: own txn before else own txn before
      | none => own txn before

/- The changes of all transactions that were committed, in the order of the commits. -/
def committed : Log → Changes
  | [] => []
  | event :: before => match Event.committed? event with
    | some txn => own txn before ++ committed before
    | none => committed before

variable {event : Event} {h : Log}

theorem ownSame (stays : Event.ended? event = none) (same : Event.change? event = none)
    (txn : TxnId) : own txn (event :: h) = own txn h := by
  simp [own, stays, same]

theorem ownChange {maker : TxnId} {change : Rid × Option Bytes} (stays : Event.ended? event = none)
    (made : Event.change? event = some (maker, change)) (txn : TxnId) :
    own txn (event :: h) = if maker = txn then change :: own txn h else own txn h := by
  simp [own, stays, made]

theorem ownEnd {ender : TxnId} (ends : Event.ended? event = some ender)
    (same : Event.change? event = none) (txn : TxnId) :
    own txn (event :: h) = if ender = txn then [] else own txn h := by
  simp [own, ends, same]

theorem committedSame (same : Event.committed? event = none) :
    committed (event :: h) = committed h := by
  simp only [committed, same]

end Log

namespace Rows

theorem replayAppend (rows : Rows) (later before : Changes) :
    rows.replay (later ++ before) = (rows.replay before).replay later := by
  induction later with
  | nil => rfl
  | cons change rest ih => exact congrArg (Rows.set · change.1 change.2) ih

theorem replayAway (rows : Rows) {changes : Changes} {rid : Rid}
    (away : ∀ change ∈ changes, change.1 ≠ rid) : rows.replay changes rid = rows rid := by
  induction changes with
  | nil => rfl
  | cons change rest ih =>
    have other : ¬ rid = change.1 := fun same => away change List.mem_cons_self same.symm
    simp only [replay, set, if_neg other]
    exact ih fun change there => away change (List.mem_cons_of_mem _ there)

theorem replaySame {rows rows' : Rows} (changes : Changes) {rid : Rid}
    (same : rows rid = rows' rid) : rows.replay changes rid = rows'.replay changes rid := by
  induction changes with
  | nil => exact same
  | cons change rest ih =>
    simp only [replay, set]
    split
    · rfl
    · exact ih

end Rows

namespace Pool

variable {p q : Pool} {base : Rows} {h : Log}

/- What a pool holds is what the answers say. -/
structure Tells (base : Rows) (h : Log) (p : Pool) : Prop where
  lasts : p.durable = base.replay h.committed
  seen : ∀ txn rid, p.locks.access? txn rid.page = some .exclusive →
    p.rows rid = p.durable.replay (h.own txn) rid
  free : ∀ rid : Rid, (∀ txn, p.locks.access? txn rid.page ≠ some .exclusive) →
    p.rows rid = p.durable rid
  mine : ∀ txn, ∀ change ∈ h.own txn, p.locks.access? txn change.1.page = some .exclusive

theorem Tells.away (tells : Tells base h p) {txn : TxnId} {rid : Rid}
    (other : p.locks.access? txn rid.page ≠ some .exclusive) :
    p.durable.replay (h.own txn) rid = p.durable rid :=
  Rows.replayAway _ fun change there same => other (same ▸ tells.mine txn change there)

theorem Tells.view (tells : Tells base h p) (coherent : p.locks.Coherent) {txn : TxnId} {rid : Rid}
    (locked : (p.locks.access? txn rid.page).isSome = true ∨
      (p.rows rid = none ∧ p.durable rid = none)) :
    p.rows rid = p.durable.replay (h.own txn) rid := by
  by_cases owns : p.locks.access? txn rid.page = some .exclusive
  · exact tells.seen txn rid owns
  -- a page that is only shared has been changed by nobody since it was last written
  · rw [tells.away owns]
    rcases locked with locked | ⟨none, lost⟩
    · refine tells.free rid fun other excludes => ?_
      by_cases same : txn = other
      · exact owns (same ▸ excludes)
      · rw [coherent.alone excludes same] at locked
        cases locked
    · rw [none, lost]

theorem Tells.ofLog {h' : Log} (tells : Tells base h p) (own : ∀ txn, h'.own txn = h.own txn)
    (committed : h'.committed = h.committed) : Tells base h' p where
  lasts := committed ▸ tells.lasts
  seen txn rid owns := own txn ▸ tells.seen txn rid owns
  free := tells.free
  mine txn change there := tells.mine txn change (own txn ▸ there)

theorem Tells.quiet (tells : Tells base h p) (quiet : Quiet p q) (coherent : q.locks.Coherent)
    (keeps : ∀ txn page, p.locks.access? txn page = some .exclusive →
      q.locks.access? txn page = some .exclusive) : Tells base h q := by
  -- a page that has just been taken was nobody's before, so it showed what lasts
  have nobody {rid : Rid} {txn : TxnId} (owns : q.locks.access? txn rid.page = some .exclusive)
      (fresh : p.locks.access? txn rid.page ≠ some .exclusive) (other : TxnId) :
      p.locks.access? other rid.page ≠ some .exclusive := fun excludes => by
    by_cases same : other = txn
    · exact fresh (same ▸ excludes)
    · have none := coherent.alone owns same
      rw [keeps other rid.page excludes] at none
      cases none
  refine ⟨quiet.durable.trans tells.lasts, fun txn rid owns => ?_, fun rid free => ?_,
    fun txn change there => keeps txn _ (tells.mine txn change there)⟩
  · rw [quiet.rows, quiet.durable]
    by_cases before : p.locks.access? txn rid.page = some .exclusive
    · exact tells.seen txn rid before
    · rw [tells.away before]
      exact tells.free rid (nobody owns before)
  · rw [quiet.rows, quiet.durable]
    exact tells.free rid fun txn owns => free txn (keeps txn rid.page owns)

theorem Tells.change (tells : Tells base h p) (coherent : p.locks.Coherent) {event : Event}
    {maker : TxnId} {rid : Rid} {row : Option Bytes} (stays : Event.ended? event = none)
    (same : Event.committed? event = none) (made : Event.change? event = some (maker, rid, row))
    (changed : Changed p q maker rid row) : Tells base (event :: h) q := by
  obtain ⟨_, _, owns, locks, rows, durable⟩ := changed
  have apart {other : Rid} (away : other ≠ rid) : q.rows other = p.rows other := by
    rw [rows, Rows.set, if_neg away]
  refine ⟨?_, fun txn other mine => ?_, fun other free => ?_, fun txn change there => ?_⟩
  · rw [durable, Log.committedSame same]
    exact tells.lasts
  · rw [locks] at mine
    rw [durable, Log.ownChange stays made]
    split
    · rename_i self
      subst self
      rw [rows]
      simp only [Rows.replay, Rows.set]
      split
      · rfl
      · exact tells.seen maker other mine
    · rename_i another
      refine (apart ?_).trans (tells.seen txn other mine)
      rintro rfl
      rw [coherent.alone owns fun same => another same.symm] at mine
      cases mine
  · rw [locks] at free
    rw [durable]
    refine (apart ?_).trans (tells.free other free)
    rintro rfl
    exact free maker owns
  · rw [locks]
    rw [Log.ownChange stays made] at there
    split at there
    · rename_i self
      subst self
      rcases List.mem_cons.mp there with rfl | there
      · exact owns
      · exact tells.mine maker change there
    · exact tells.mine txn change there

theorem Tells.settle (tells : Tells base h p) (coherent : p.locks.Coherent) {event : Event}
    {txn : TxnId} {kept : Rows} (ends : Event.ended? event = some txn)
    (same : Event.change? event = none) (settled : Settled p q txn kept) (room : q.Room)
    (lasts : q.durable = base.replay (Log.committed (event :: h))) : Tells base (event :: h) q := by
  have access (other : TxnId) (page : PageId) : q.locks.access? other page =
      if txn = other then none else p.locks.access? other page := by
    rw [settled.locks]
    exact LockTable.accessReleaseAll ..
  have others {other : TxnId} {rid : Rid} (owns : p.locks.access? other rid.page = some .exclusive)
      (apart : txn ≠ other) : q.rows rid = p.rows rid ∧ q.durable rid = p.durable rid := by
    have away : ¬ p.locks.access? txn rid.page = some .exclusive := fun mine => by
      rw [coherent.alone owns apart] at mine
      cases mine
    rw [settled.rows room, settled.durable room, if_neg away, if_neg away]
    exact ⟨rfl, rfl⟩
  refine ⟨lasts, fun other rid owns => ?_, fun rid free => ?_, fun other change there => ?_⟩
  · rw [access] at owns
    split at owns
    · cases owns
    · rename_i apart
      obtain ⟨rows, durable⟩ := others owns apart
      rw [Log.ownEnd ends same, if_neg apart, rows, tells.seen other rid owns]
      exact Rows.replaySame _ durable.symm
  · rw [settled.rows room, settled.durable room]
    split
    · rfl
    · rename_i away
      refine tells.free rid fun other owns => ?_
      by_cases own : txn = other
      · exact away (own ▸ owns)
      · exact free other ((access other rid.page).trans ((if_neg own).trans owns))
  · rw [Log.ownEnd ends same] at there
    split at there
    · cases there
    · rename_i apart
      exact (access ..).trans ((if_neg apart).trans (tells.mine other change there))

theorem Tells.commit (tells : Tells base h p) (coherent : p.locks.Coherent) {txn : TxnId}
    {answer : Answer} (settled : Settled p q txn p.rows) (room : q.Room) :
    Tells base ((.commit txn, .ok answer) :: h) q := by
  refine tells.settle coherent rfl rfl settled room (funext fun rid => ?_)
  change q.durable rid = base.replay (h.own txn ++ h.committed) rid
  rw [Rows.replayAppend, ← tells.lasts, settled.durable room]
  split
  · rename_i owns
    exact tells.seen txn rid owns
  · rename_i other
    exact (tells.away other).symm

theorem Tells.abort (tells : Tells base h p) (coherent : p.locks.Coherent) {txn : TxnId}
    {answer : Answer} (settled : Settled p q txn p.durable) (room : q.Room) :
    Tells base ((.abort txn, .ok answer) :: h) q := by
  refine tells.settle coherent rfl rfl settled room (funext fun rid => ?_)
  change q.durable rid = base.replay h.committed rid
  rw [← tells.lasts, settled.durable room]
  split <;> rfl

end Pool
end PagedHeap
