import PagedHeap.Pool.Basic
import PagedHeap.Proofs.LockLaws

/-! Waiting for a lock while others go on. A look at the lock takes place as long as the
wait has not lasted too long and every look before was in vain. It grants exactly if
nobody is in the way, and until one does the table is what the others alone make of it. -/
namespace PagedHeap

def LockStep.txn : LockStep → TxnId
  | .request wanted => wanted.txn
  | .release txn _ => txn
  | .releaseAll txn => txn

/- What lies between two looks at a lock: the clock is read, then others take steps. -/
structure Pause where
  waited : Nat
  steps : List LockStep
  deriving DecidableEq, Repr

namespace Pause

def turn (pause : Pause) : Turn := ⟨pause.waited, fun t => (t.run pause.steps).2⟩

def Foreign (txn : TxnId) (pause : Pause) : Prop := ∀ step ∈ pause.steps, step.txn ≠ txn

end Pause

namespace LockTable

variable {wanted : Lock} {threshold : Nat} {t : LockTable}

/- Somebody else holds a lock that conflicts with the wanted one. -/
def Hindered (t : LockTable) (wanted : Lock) : Prop :=
  ∃ other, other ≠ wanted.txn ∧ ∃ l ∈ t.heldBy other, l.conflicts wanted = true

/- What the others alone make of the table. -/
def after (t : LockTable) (pauses : List Pause) : LockTable :=
  pauses.foldl (fun t pause => (t.run pause.steps).2) t

/- The look that follows these pauses takes place: at none of them was it too late, and
none of the looks before found the way free. -/
structure Looks (wanted : Lock) (threshold : Nat) (t : LockTable) (pauses : List Pause) :
    Prop where
  inTime : ∀ pause ∈ pauses, pause.waited ≤ threshold
  inVain : ∀ early late, early ++ late = pauses → late ≠ [] → (t.after early).Hindered wanted

/- What steps leave in order, and to whom they leave his locks. -/

theorem Coherent.run (coherent : t.Coherent) (steps : List LockStep) :
    (t.run steps).2.Coherent := by
  induction steps generalizing t with
  | nil => exact coherent
  | cons step rest ih => exact ih (coherent.perform step)

theorem Coherent.after (coherent : t.Coherent) (pauses : List Pause) :
    (t.after pauses).Coherent := by
  induction pauses generalizing t with
  | nil => exact coherent
  | cons pause rest ih => exact ih (coherent.run pause.steps)

theorem heldByPerform {step : LockStep} {txn : TxnId} (foreign : step.txn ≠ txn) :
    (t.perform step).2.heldBy txn = t.heldBy txn := by
  cases step with
  | request wanted => exact t.heldByRequest fun own => foreign own.symm
  | release other page => exact (t.releaseLaw other page).others txn fun own => foreign own.symm
  | releaseAll other => exact (t.releaseAllLaw other).others txn fun own => foreign own.symm

theorem heldByRun {steps : List LockStep} {txn : TxnId}
    (foreign : ∀ step ∈ steps, step.txn ≠ txn) : (t.run steps).2.heldBy txn = t.heldBy txn := by
  induction steps generalizing t with
  | nil => rfl
  | cons step rest ih =>
    obtain ⟨first, others⟩ := List.forall_mem_cons.mp foreign
    exact (ih others).trans (heldByPerform first)

theorem heldByAfter {pauses : List Pause} {txn : TxnId}
    (foreign : ∀ pause ∈ pauses, pause.Foreign txn) :
    (t.after pauses).heldBy txn = t.heldBy txn := by
  induction pauses generalizing t with
  | nil => rfl
  | cons pause rest ih =>
    obtain ⟨first, others⟩ := List.forall_mem_cons.mp foreign
    exact (ih others).trans (heldByRun first)

/- One look. -/

theorem Coherent.requestFree (coherent : t.Coherent) (free : ¬ t.Hindered wanted) :
    t.request wanted = (true, (t.request wanted).2) := by
  refine Prod.ext ((coherent.requestLaw wanted).grantedIff.mpr ?_) rfl
  intro other apart l held
  exact Bool.eq_false_iff.mpr fun conflict => free ⟨other, apart, l, held, conflict⟩

theorem Coherent.requestHindered (coherent : t.Coherent) (hindered : t.Hindered wanted) :
    t.request wanted = (false, t) := by
  refine requestRefused (Bool.eq_false_iff.mpr fun granted => ?_)
  obtain ⟨other, apart, l, held, conflict⟩ := hindered
  have none := (coherent.requestLaw wanted).grantedIff.mp granted other apart l held
  rw [none] at conflict
  cases conflict

theorem Coherent.served (coherent : t.Coherent) (free : ¬ t.Hindered wanted) :
    (∃ l ∈ (t.request wanted).2.heldBy wanted.txn, l.serves wanted = true) ∧
      ¬ (t.request wanted).2.Hindered wanted := by
  have law := coherent.requestLaw wanted
  have granted : (t.request wanted).1 = true := congrArg Prod.fst (coherent.requestFree free)
  constructor
  · have held := (Coherent.perform coherent (.request wanted)).lockOf.mp (law.own granted)
    refine ⟨_, held, ?_⟩
    split <;> simp [Lock.serves, Lock.isAt]
    cases wanted.access <;> simp
  · rintro ⟨other, apart, l, held, conflict⟩
    rw [law.others other apart] at held
    exact free ⟨other, apart, l, held, conflict⟩

/- All looks of a wait. -/

theorem looksNil : Looks wanted threshold t [] :=
  ⟨fun _ none => (List.not_mem_nil none).elim,
    fun _ _ parts more => (more (List.append_eq_nil_iff.mp parts).2).elim⟩

theorem looksCons {pause : Pause} {rest : List Pause} :
    Looks wanted threshold t (pause :: rest) ↔ t.Hindered wanted ∧ pause.waited ≤ threshold ∧
      Looks wanted threshold (t.run pause.steps).2 rest := by
  constructor
  · intro looks
    obtain ⟨first, others⟩ := List.forall_mem_cons.mp looks.inTime
    refine ⟨looks.inVain [] _ rfl (List.cons_ne_nil _ _), first, others, ?_⟩
    intro early late parts more
    exact looks.inVain (pause :: early) late (congrArg (pause :: ·) parts) more
  · rintro ⟨hindered, first, looks⟩
    refine ⟨List.forall_mem_cons.mpr ⟨first, looks.inTime⟩, fun early late parts more => ?_⟩
    cases early with
    | nil => exact hindered
    | cons head early =>
      obtain ⟨rfl, rest⟩ := List.cons.inj parts
      exact looks.inVain early late rest more

theorem awaitTurn (turn : Turn) (rest : List Turn) :
    await wanted threshold (turn :: rest) t =
      if threshold < turn.waited then (.timedOut, t)
      else (turn.others t).acquire wanted threshold rest := rfl

theorem acquireSkips {early : List Pause} (coherent : t.Coherent)
    (looks : Looks wanted threshold t early) (late : List Pause) :
    t.acquire wanted threshold ((early ++ late).map Pause.turn) =
      (t.after early).acquire wanted threshold (late.map Pause.turn) := by
  induction early generalizing t with
  | nil => rfl
  | cons pause rest ih =>
    obtain ⟨hindered, inTime, looks⟩ := looksCons.mp looks
    refine Eq.trans ?_ (ih (coherent.run pause.steps) looks)
    simp only [List.cons_append, List.map_cons, acquire, coherent.requestHindered hindered]
    exact (awaitTurn ..).trans (if_neg (Nat.not_lt.mpr inTime))

theorem lastLook (wanted : Lock) (threshold : Nat) (t : LockTable) (pauses : List Pause) :
    ∃ early late, early ++ late = pauses ∧ Looks wanted threshold t early ∧
      (¬ (t.after early).Hindered wanted ∨ (t.after early).Hindered wanted ∧
        ∀ pause rest, late = pause :: rest → threshold < pause.waited) := by
  induction pauses generalizing t with
  | nil =>
    have none : ∀ (pause : Pause) rest, [] = pause :: rest → threshold < pause.waited :=
      fun _ _ impossible => (List.cons_ne_nil _ _ impossible.symm).elim
    exact ⟨[], [], rfl, looksNil, (Classical.em _).symm.imp_right fun hindered => ⟨hindered, none⟩⟩
  | cons pause rest ih =>
    by_cases hindered : t.Hindered wanted
    · by_cases late : threshold < pause.waited
      · refine ⟨[], pause :: rest, rfl, looksNil, .inr ⟨hindered, fun other _ same => ?_⟩⟩
        obtain ⟨rfl, -⟩ := List.cons.inj same
        exact late
      · obtain ⟨early, left, parts, looks, last⟩ := ih (t.run pause.steps).2
        exact ⟨pause :: early, left, congrArg (pause :: ·) parts,
          looksCons.mpr ⟨hindered, Nat.not_lt.mp late, looks⟩, last⟩
    · exact ⟨[], pause :: rest, rfl, looksNil, .inl hindered⟩

/- What a wait may answer, with the table that it leaves. -/
structure WaitLaw (wanted : Lock) (threshold : Nat) (pauses : List Pause) (t : LockTable)
    (answer : Ending × LockTable) : Prop where
  grants : ∀ early late, early ++ late = pauses → Looks wanted threshold t early →
    ¬ (t.after early).Hindered wanted →
    answer = (.granted, ((t.after early).request wanted).2)
  granted : answer.1 = .granted → ∃ early late, early ++ late = pauses ∧
    Looks wanted threshold t early ∧ ¬ (t.after early).Hindered wanted
  holds : answer.1 = .granted → (∃ l ∈ answer.2.heldBy wanted.txn, l.serves wanted = true) ∧
    ¬ answer.2.Hindered wanted
  timedOut : answer.1 = .timedOut → ∃ early pause late, early ++ pause :: late = pauses ∧
    Looks wanted threshold t early ∧ threshold < pause.waited ∧
    answer.2 = t.after early ∧ answer.2.Hindered wanted
  waiting : answer.1 = .waiting → Looks wanted threshold t pauses ∧
    answer.2 = t.after pauses ∧ answer.2.Hindered wanted
  kept : answer.1 ≠ .granted → answer.2.heldBy wanted.txn = t.heldBy wanted.txn

/- The law of each way in which a wait can end, all told by its last look. -/

section LastLook

variable {pauses early late : List Pause}

theorem Coherent.grantsAt (coherent : t.Coherent) (threshold : Nat) (parts : early ++ late = pauses)
    (looks : Looks wanted threshold t early) (free : ¬ (t.after early).Hindered wanted) :
    t.acquire wanted threshold (pauses.map Pause.turn) =
      (.granted, ((t.after early).request wanted).2) := by
  rw [← parts, acquireSkips coherent looks]
  exact acquireGranted ((coherent.after early).requestFree free) ..

theorem Coherent.refusedAt (coherent : t.Coherent) (threshold : Nat)
    (parts : early ++ late = pauses) (looks : Looks wanted threshold t early)
    (hindered : (t.after early).Hindered wanted) :
    t.acquire wanted threshold (pauses.map Pause.turn) =
      await wanted threshold (late.map Pause.turn) (t.after early) := by
  rw [← parts, acquireSkips coherent looks]
  simp only [acquire, (coherent.after early).requestHindered hindered]

theorem Coherent.waitLaw (coherent : t.Coherent)
    (foreign : ∀ pause ∈ pauses, pause.Foreign wanted.txn) :
    WaitLaw wanted threshold pauses t (t.acquire wanted threshold (pauses.map Pause.turn)) := by
  obtain ⟨early, late, parts, looks, last⟩ := lastLook wanted threshold t pauses
  have grants (early' late') (parts' : early' ++ late' = pauses)
      (looks' : Looks wanted threshold t early')
      (free' : ¬ (t.after early').Hindered wanted) := coherent.grantsAt _ parts' looks' free'
  have own : (t.after early).heldBy wanted.txn = t.heldBy wanted.txn :=
    heldByAfter fun pause there => foreign pause (parts ▸ List.mem_append_left late there)
  rcases last with free | ⟨hindered, tooLate⟩
  · have result := grants early late parts looks free
    refine ⟨grants, fun _ => ⟨early, late, parts, looks, free⟩, fun _ => ?_, ?_, ?_, ?_⟩ <;>
      rw [result]
    · exact (coherent.after early).served free
    · exact nofun
    · exact nofun
    · exact fun other => (other rfl).elim
  · have result := coherent.refusedAt _ parts looks hindered
    cases late with
    | nil =>
      rw [List.append_nil] at parts
      subst parts
      refine ⟨grants, ?_, ?_, ?_, fun _ => ?_, fun _ => ?_⟩ <;> rw [result]
      · exact nofun
      · exact nofun
      · exact nofun
      · exact ⟨looks, rfl, hindered⟩
      · exact own
    | cons pause rest =>
      have expired : await wanted threshold ((pause :: rest).map Pause.turn) (t.after early) =
          (.timedOut, t.after early) := (awaitTurn ..).trans (if_pos (tooLate pause rest rfl))
      rw [expired] at result
      refine ⟨grants, ?_, ?_, fun _ => ?_, ?_, fun _ => ?_⟩ <;> rw [result]
      · exact nofun
      · exact nofun
      · exact ⟨early, pause, rest, parts, looks, tooLate pause rest rfl, rfl, hindered⟩
      · exact nofun
      · exact own

end LastLook

end LockTable

namespace Pool

variable {p : Pool} {wanted : Lock}

/- How a pool waits: one look, then whatever others do, then one more look or none. -/

theorem lockFree (coherent : p.locks.Coherent) (free : ¬ p.locks.Hindered wanted) :
    lock wanted p = .ended (.ok () {p with locks := (p.locks.request wanted).2}) := by
  unfold lock
  rw [LockTable.acquireGranted (coherent.requestFree free)]

theorem lockWaits (coherent : p.locks.Coherent) (hindered : p.locks.Hindered wanted) :
    ∃ resume, lock wanted p = .waiting p resume ∧ ∀ q, q.locks.Coherent →
      (¬ q.locks.Hindered wanted →
        resume q = .ended (.ok () {q with locks := (q.locks.request wanted).2})) ∧
      (q.locks.Hindered wanted →
        resume q = .ended (.error (.aborted wanted.txn wanted.page) q)) := by
  unfold lock
  rw [LockTable.acquireWaiting (congrArg Prod.fst (coherent.requestHindered hindered))]
  refine ⟨_, rfl, fun q ordered => ⟨fun free => ?_, fun hindered => ?_⟩⟩
  · simp only [LockTable.acquireGranted (ordered.requestFree free)]
  · simp only [LockTable.acquireExpired (congrArg Prod.fst (ordered.requestHindered hindered))]

/- A request that nobody hinders is granted at once. Any other waits, the pool as it was,
and once the others have acted it is granted or given up by what they have left. -/
structure LockLaw (wanted : Lock) (p : Pool) : Prop where
  free : ¬ p.locks.Hindered wanted →
    lock wanted p = .ended (.ok () {p with locks := (p.locks.request wanted).2})
  hindered : p.locks.Hindered wanted → ∃ resume, lock wanted p = .waiting p resume ∧
    ∀ pauses q, q.locks = p.locks.after pauses →
      (¬ q.locks.Hindered wanted →
        resume q = .ended (.ok () {q with locks := (q.locks.request wanted).2})) ∧
      (q.locks.Hindered wanted →
        resume q = .ended (.error (.aborted wanted.txn wanted.page) q))

end Pool

namespace LockTable

/-- A wait is granted at the first look that finds nobody in the way, and given up only
when the clock shows too much and somebody still is; until then, the table is what the
others alone have made of it. -/
theorem waitGrantsOrAborts (before : List LockStep) (wanted : Lock) (threshold : Nat)
    (pauses : List Pause) (foreign : ∀ pause ∈ pauses, pause.Foreign wanted.txn) :
    let t := (empty.run before).2
    WaitLaw wanted threshold pauses t (t.acquire wanted threshold (pauses.map Pause.turn)) ∧
      ∀ p : Pool, p.locks = t → p.LockLaw wanted := by
  have coherent : ((empty.run before).2).Coherent := emptyCoherent.run before
  refine ⟨coherent.waitLaw foreign, fun p same => ?_⟩
  rw [← same] at coherent
  refine ⟨Pool.lockFree coherent, fun hindered => ?_⟩
  obtain ⟨resume, waits, ends⟩ := Pool.lockWaits coherent hindered
  exact ⟨resume, waits, fun pauses q left => ends q (left ▸ coherent.after pauses)⟩

/- Two transactions share a page and want it for themselves. The second is refused and
leaves; whether the first still gets the page depends on its clock alone. -/

def sampleSharers : List LockStep :=
  [.request ⟨1, ⟨1, 0⟩, .shared⟩, .request ⟨2, ⟨1, 0⟩, .shared⟩]

def sampleRaised : Lock := ⟨1, ⟨1, 0⟩, .exclusive⟩

def samplePauses : List Pause :=
  [⟨0, [.request ⟨2, ⟨1, 0⟩, .exclusive⟩]⟩, ⟨7, [.releaseAll 2]⟩]

theorem sampleUpgrades : (∀ pause ∈ samplePauses, pause.Foreign sampleRaised.txn) ∧
    (let patient :=
      (empty.run sampleSharers).2.acquire sampleRaised 10 (samplePauses.map Pause.turn)
     patient.1 = .granted ∧ ¬ patient.2.Hindered sampleRaised) ∧
    (let hasty := (empty.run sampleSharers).2.acquire sampleRaised 5 (samplePauses.map Pause.turn)
     hasty.1 = .timedOut ∧ hasty.2.heldBy 1 = [⟨1, ⟨1, 0⟩, .shared⟩]) := by
  have foreign : ∀ pause ∈ samplePauses, pause.Foreign sampleRaised.txn := by
    simp only [Pause.Foreign]
    decide
  have patient := (waitGrantsOrAborts sampleSharers sampleRaised 10 samplePauses foreign).1
  have hasty := (waitGrantsOrAborts sampleSharers sampleRaised 5 samplePauses foreign).1
  exact ⟨foreign, ⟨by decide, (patient.holds (by decide)).2⟩, by decide,
    (hasty.kept (by decide)).trans (by decide)⟩

end LockTable
end PagedHeap
