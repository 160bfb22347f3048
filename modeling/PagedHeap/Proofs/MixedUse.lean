import PagedHeap.Proofs.Lifetimes
import PagedHeap.Proofs.Openings

/-! An engine whose pool is also called directly. Whatever operations and calls are mixed, on
volumes that may fail in any way, the cache keeps its rules and the locks agree. -/
namespace PagedHeap

open Pool (Moves Interlude)

namespace Pool

variable {p q : Pool}

structure Kempt (p : Pool) : Prop extends Housed p where
  coherent : p.locks.Coherent

namespace Kempt

theorem move {act : Act} (kempt : p.Kempt) (move : Move act p q) : q.Kempt :=
  ⟨kempt.toHoused.move move, move.coherent kempt.coherent⟩

theorem moves {kind : Act → Prop} (kempt : p.Kempt) (moves : Moves kind p q) : q.Kempt :=
  moves.within (fun p q => p.Kempt → q.Kempt) (fun _ same => same)
    (fun _ _ _ first second same => second (first same)) (fun _ _ _ _ move same => same.move move)
    kempt

theorem added (kempt : p.Kempt) {storage : Storage} (added : p.storage.Added storage) :
    Kempt {p with storage} := ⟨kempt.toHoused.added added, kempt.coherent⟩

end Kempt

theorem Fresh.kempt (fresh : p.Fresh) : p.Kempt :=
  ⟨fresh.housed, fresh.locks ▸ LockTable.emptyCoherent⟩

end Pool

namespace Engine

variable {α β : Type} {who : Option TxnId} {e : Engine}

namespace Job

def txn? : Job → Option TxnId
  | .operation o => o.txn?
  | .call c => c.txn?

end Job

/- Any job at any time, but tables are not opened while others are at work. -/
def mixed : Service Engine Job (Option Response) where
  txn? := Job.txn?
  work := Job.work
  Admits
    | .operation (.openTable ..), _ => False
    | .operation _, _ => True
    | .call call, e => Pool.sharing.Admits call e.pool

def Strides (who : Option TxnId) (e e' : Engine) : Prop := Moves (Act.byOwn who) e.pool e'.pool

def Waits (who : Option TxnId) (e e' : Engine) : Prop := Interlude who e.pool e'.pool

def Stays (who : Option TxnId) (work : Progress Engine α) (e : Engine) : Prop :=
  work.Meets (Strides who) (Waits who) (fun e _ e' => Strides who e e') e

namespace Stays

theorem within {work : Activity Pool α} (h : Pool.Stays who (work e.pool) e.pool) :
    Stays who (work.within poolPart e) e := by
  have h : (work e.pool).Meets _ _ _ e.pool := h
  exact (Progress.Meets.inPart h).mono (fun _ _ same => same.1) (fun _ _ same => same)
    (fun _ _ _ same => same.1)

theorem instant {r : EStateM.Result Error Engine α}
    (h : Ends (fun _ e' => Strides who e e') (Strides who e) r) : Stays who (.ended r) e :=
  Progress.meetsEnded h

theorem answer {answer : α → β} {work : Progress Engine α} (h : Stays who work e) :
    Stays who (work.andThen fun a e => .ended (.ok (answer a) e)) e :=
  Progress.Meets.andThen h fun _ _ _ moves => moves

end Stays

theorem finishStays {txn : TxnId} {work : Instant Pool Unit} (status : Status)
    (h : Pool.Stays who (.ended (work e.pool)) e.pool) :
    Stays who (.ended (finish txn work status e)) e := by
  refine .instant ((finishEnds (Progress.Meets.ends h)).mono (fun _ _ ended => ended.2.1)
    fun e' failed => ?_)
  obtain ⟨-, rfl⟩ | ⟨-, moves, -⟩ := failed
  · exact .refl
  · exact moves

theorem jobStays (housed : e.pool.Housed) (job : Job) (admitted : mixed.Admits job e) :
    Stays job.txn? (job.work e) e := by
  cases job with
  | call call => exact (Stays.within (Pool.callStays housed call admitted)).answer
  | operation o =>
    refine Stays.answer ?_
    cases o with
    | openTable name width => exact admitted.elim
    | flush =>
      refine Stays.answer ?_
      exact Stays.within (Pool.callStays housed .flushAll trivial)
    | request r =>
      refine Stays.answer ?_
      cases r with
      | begin => exact Moves.refl
      | insert txn table values => exact (Stays.within (Pool.insertStays housed txn table _)).answer
      | delete txn rid => exact (Stays.within (Pool.deleteStays housed txn (some rid))).answer
      | scan who id =>
        refine Stays.answer (tableMeets id .refl fun file _ => Stays.within ?_)
        exact (Pool.walkReaches housed UInt32.size 0).stays
          (fun _ own => Act.seeksOwn (Act.readsSeeks own.1)) fun _ _ _ same => same.1 ▸ .refl
      | commit txn =>
        refine Stays.answer ?_
        exact finishStays .committed (Pool.callStays housed (.commit txn) trivial)
      | abort txn =>
        refine Stays.answer ?_
        exact finishStays .aborted (Pool.callStays housed (.abort txn) trivial)

theorem lawOfMixed : mixed.Law (fun _ e => e.pool.Kempt) (fun job => Strides job.txn?)
    (fun job => Waits job.txn?) (fun job e _ e' => Strides job.txn? e e') := by
  exact {
    works := fun job kempt admitted => jobStays kempt.toHoused job admitted
    stops := fun _ kempt moves => kempt.moves moves
    fails := fun _ _ kempt moves => kempt.moves moves
    ends := fun _ _ kempt moves => kempt.moves moves
    idle := fun _ kempt => Interlude.refl kempt.toHoused
    join := fun _ {_ _ _} first second => Interlude.trans first second
    aside := fun _ _ kempt free moves => Moves.interlude moves kempt.toHoused free
    asideDone := fun _ _ _ kempt free moves => Moves.interlude moves kempt.toHoused free }

/- All states an engine comes to: tables are opened when nobody waits, on whatever files, and in
between anything is asked for. -/
inductive Attained : Traffic Engine Job (Option Response) → Prop
  | fresh {e : Engine} (fresh : e.pool.Fresh) : Attained ⟨e, []⟩
  | opened {e e' : Engine} {name width table} (before : Attained ⟨e, []⟩)
      (done : opening name width e = .ok table e') : Attained ⟨e', []⟩
  | unopened {e e' : Engine} {name width cause} (before : Attained ⟨e, []⟩)
      (failed : opening name width e = .error cause e') : Attained ⟨e', []⟩
  | stepped {h h' t t'} (before : Attained t) (step : mixed.Step (h, t) (h', t')) : Attained t'

theorem openingKempt (kempt : e.pool.Kempt) (name : String) (width : Nat) :
    Ends (fun _ e' => e'.pool.Kempt) (fun e' => e'.pool.Kempt) (opening name width e) := by
  refine (openingEnds kempt.toHoused name width).mono (fun _ e' opened => ?_)
    (fun e' failed => ?_)
  · obtain ⟨storage, file, added, -, move⟩ := opened
    exact (kempt.added added).move move
  · obtain ⟨storage, added, same⟩ := failed
    exact same ▸ kempt.added added

variable {t : Traffic Engine Job (Option Response)}

theorem Attained.orderly (attained : Attained t) (h : History Job (Option Response)) :
    mixed.Orderly (fun _ e => e.pool.Kempt) (fun job => Strides job.txn?)
      (fun job => Waits job.txn?) (fun job e _ e' => Strides job.txn? e e') h t := by
  have alone {e : Engine} (kempt : e.pool.Kempt) (h : History Job (Option Response)) :
      mixed.Orderly (fun _ e => e.pool.Kempt) (fun job => Strides job.txn?)
        (fun job => Waits job.txn?) (fun job e _ e' => Strides job.txn? e e') h ⟨e, []⟩ :=
    ⟨kempt, fun _ there => (List.not_mem_nil there).elim, .nil⟩
  induction attained generalizing h with
  | fresh fresh => exact alone fresh.kempt h
  | @opened _ _ name width _ _ done ih =>
    have opened := openingKempt (ih []).holds name width
    rw [done] at opened
    exact alone opened h
  | @unopened _ _ name width _ _ failed ih =>
    have lost := openingKempt (ih []).holds name width
    rw [failed] at lost
    exact alone lost h
  | stepped before step ih =>
    have later := lawOfMixed.step (ih _) step
    exact ⟨later.holds, later.ready, later.apart⟩

theorem Attained.kempt (attained : Attained t) : t.state.pool.Kempt := (attained.orderly []).holds

theorem Attained.asked (before : History Job (Option Response) ×
    Traffic Engine Job (Option Response)) (attained : Attained before.2) (job : Job)
    (admitted : mixed.Admits job before.2.state) (idle : before.2.waiting = []) :
    Attained (mixed.next job before).2 := .stepped attained (.alone mixed job admitted idle)

end Engine
end PagedHeap
