import PagedHeap.Engine
import PagedHeap.Proofs.Histories
import PagedHeap.Proofs.Placements
import PagedHeap.Proofs.Scans

/-! An engine at work for many transactions at once, whose requests wait for each other's
locks and go on in any order. As long as no call to write goes wrong, the volumes hold the
changes of the commits and nothing else at every moment, and a transaction that scans a table
sees those and its own. -/
namespace PagedHeap

namespace Request

def txn? : Request → Option TxnId
  | .insert txn .. | .delete txn _ | .commit txn | .abort txn => some txn
  | .scan who _ => who
  | .begin => none

def user? : Request → Option TxnId
  | .insert txn .. | .delete txn _ => some txn
  | .scan who _ => who
  | .begin | .commit _ | .abort _ => none

def work : Request → Activity Engine Answer
  | .begin => do return .began (← Engine.begin)
  | .insert txn table values => do return .placed (← Engine.insert txn table values)
  | .delete txn rid => do
    Engine.delete txn rid
    return .done
  | .scan who table => do return .listed (← Engine.scan who table)
  | .commit txn => do
    Engine.commit txn
    return .done
  | .abort txn => do
    Engine.abort txn
    return .done

end Request

namespace Pool

inductive Did : Request → Answer → Pool → Pool → Prop
  | begin {p txn} : Did .begin (.began txn) p p
  | insert {p m q txn table values rid} (moves : Moves (Act.seeks (some txn)) p m)
      (move : Move (.fill txn rid (Record.ofValues values).data) m q) :
      Did (.insert txn table values) (.placed rid) p q
  | delete {p m q txn rid} (moves : Moves (Act.seeks (some txn)) p m)
      (move : Move (.clear txn rid) m q) : Did (.delete txn rid) .done p q
  | scan {p q who table records} (moves : Moves (Act.seeks who) p q)
      (scanned : ∀ txn, who = some txn → Scanned table txn records q) :
      Did (.scan who table) (.listed records) p q
  | commit {p q txn} (settled : Settled p q txn p.rows) : Did (.commit txn) .done p q
  | abort {p q txn} (settled : Settled p q txn p.durable) : Did (.abort txn) .done p q

variable {p q : Pool} {base : Rows} {h : Log} {r : Request} {a : Answer}

theorem Moves.keepsOwner {kind : Act → Prop} (allowed : ∀ act, kind act → act.orderly)
    (moves : Moves kind p q) (txn : TxnId) (page : PageId)
    (owns : p.locks.access? txn page = some .exclusive) :
    q.locks.access? txn page = some .exclusive :=
  moves.within (fun p q => p.locks.access? txn page = some .exclusive →
      q.locks.access? txn page = some .exclusive) (fun _ same => same)
    (fun _ _ _ first second same => second (first same))
    (fun act _ _ of move same => move.keepsOwner (allowed act of) same) owns

theorem Tells.seeks (tells : Tells base h p) (orderly : p.Orderly) {who : Option TxnId}
    (moves : Moves (Act.seeks who) p q) (room : q.Room) : Tells base h q :=
  tells.quiet (orderly.looksQuiet moves room) (orderly.sought moves).coherent
    (moves.keepsOwner fun _ => Act.seeksOrderly)

theorem Orderly.undisturbed (orderly : p.Orderly) {who other : Option TxnId}
    (moves : Moves (Act.seeks who) p q) (apart : ∀ txn, who = some txn → other ≠ some txn) :
    Undisturbed other p q := by
  refine ⟨(moves.mono fun _ => Act.seeksOwn).interlude orderly.toHoused apart,
    orderly.sought moves, fun _ _ room rid _ => ?_⟩
  rw [(orderly.looksQuiet moves room).rows]

theorem Orderly.notShared (orderly : p.Orderly) {maker txn : TxnId} {page : PageId}
    (owns : p.locks.access? maker page = some .exclusive) (apart : txn ≠ maker) :
    ¬ (p.locks.access? txn page).isSome = true := by
  rw [orderly.coherent.alone owns apart]
  exact Bool.false_ne_true

theorem Orderly.changeUndisturbed (orderly : p.Orderly) {maker : TxnId} {rid : Rid}
    {row : Option Bytes} (changed : Changed p q maker rid row) {other : Option TxnId}
    (apart : other ≠ some maker) : Undisturbed other p q := by
  refine ⟨⟨changed.orderly.toHoused, changed.grew, fun _ _ => by rw [changed.locks]⟩,
    changed.orderly, fun txn mine _ place locked => ?_⟩
  rw [changed.rows, Rows.set, if_neg]
  rintro rfl
  exact orderly.notShared changed.owns (fun same => apart (same ▸ mine)) locked

theorem Orderly.settledUndisturbed (orderly : p.Orderly) {txn : TxnId} {kept : Rows}
    (settled : Settled p q txn kept) {other : Option TxnId} (apart : other ≠ some txn) :
    Undisturbed other p q := by
  refine ⟨⟨settled.orderly.toHoused, settled.grew, fun waiter mine => ?_⟩, settled.orderly,
    fun waiter mine room rid locked => ?_⟩
  · rw [settled.locks]
    have another : ¬ txn = waiter := fun same => apart (same ▸ mine)
    exact (LockTable.heldByReleaseAll ..).trans (if_neg another)
  · rw [settled.rows room, if_neg]
    exact fun owns => orderly.notShared owns (fun same => apart (same ▸ mine)) locked

namespace Did

theorem orderly (did : Did r a p q) (orderly : p.Orderly) : q.Orderly := by
  cases did with
  | begin => exact orderly
  | insert moves move => exact ((orderly.sought moves).filled move).orderly
  | delete moves move => exact ((orderly.sought moves).cleared move).orderly
  | scan moves => exact orderly.sought moves
  | commit settled | abort settled => exact settled.orderly

theorem grew (did : Did r a p q) : Grew p q := by
  cases did with
  | begin => exact .refl p
  | insert moves move | delete moves move => exact moves.grew.trans move.grew
  | scan moves => exact moves.grew
  | commit settled | abort settled => exact settled.grew

theorem tells (did : Did r a p q) (tells : Tells base h p) (orderly : p.Orderly) (room : q.Room) :
    Tells base ((r, .ok a) :: h) q := by
  cases did with
  | begin => exact tells.ofLog (Log.ownSame rfl rfl) rfl
  | insert moves move =>
    have there := orderly.sought moves
    have before := tells.seeks orderly moves (room.before move.grew)
    exact before.change there.coherent rfl rfl rfl (there.filled move)
  | delete moves move =>
    have there := orderly.sought moves
    have before := tells.seeks orderly moves (room.before move.grew)
    exact before.change there.coherent rfl rfl rfl (there.cleared move)
  | scan moves => exact (tells.seeks orderly moves room).ofLog (Log.ownSame rfl rfl) rfl
  | commit settled => exact tells.commit orderly.coherent settled room
  | abort settled => exact tells.abort orderly.coherent settled room

theorem undisturbed (did : Did r a p q) (orderly : p.Orderly) {other : Option TxnId}
    (apart : ∀ txn, r.txn? = some txn → other ≠ some txn) : Undisturbed other p q := by
  cases did with
  | begin => exact .refl orderly
  | insert moves move =>
    have there := orderly.sought moves
    exact (orderly.undisturbed moves apart).trans
      (there.changeUndisturbed (there.filled move) (apart _ rfl))
  | delete moves move =>
    have there := orderly.sought moves
    exact (orderly.undisturbed moves apart).trans
      (there.changeUndisturbed (there.cleared move) (apart _ rfl))
  | scan moves => exact orderly.undisturbed moves apart
  | commit settled | abort settled => exact orderly.settledUndisturbed settled (apart _ rfl)

theorem listed {txn : TxnId} {table : TableId} {records : List Record}
    (did : Did (.scan (some txn) table) (.listed records) p q) (tells : Tells base h p)
    (orderly : p.Orderly) (room : q.Room) :
    (base.replay (h.own txn ++ h.committed)).Listed table records := by
  cases did with
  | scan moves scanned =>
    have told := tells.seeks orderly moves room
    have there := orderly.sought moves
    obtain ⟨listed, locked⟩ := scanned txn rfl room
    refine listed.congr fun rid home => ?_
    rw [told.view there.coherent (locked rid home), told.lasts, Rows.replayAppend]

end Did

end Pool
end PagedHeap
