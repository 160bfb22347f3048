import Mathlib.Logic.Relation
import PagedHeap.Ident
import PagedHeap.Proofs.Outcome

/-! Many transactions at work on one state. A request that has to wait is left waiting
while other transactions go on, and is taken up again at any later time; a transaction
that waits asks for nothing else meanwhile. What has been answered is kept as a
history, the latest answer first. -/
namespace PagedHeap

structure Waiting (σ τ α : Type) where
  request : τ
  resume : σ → Progress σ α

structure Traffic (σ τ α : Type) where
  state : σ
  waiting : List (Waiting σ τ α)

abbrev History (τ α : Type) := List (τ × Except Error α)

/- What can be asked for: on whose behalf, what is done, and in which states it may be
asked for at all. -/
structure Service (σ τ α : Type) where
  txn? : τ → Option TxnId
  work : τ → Activity σ α
  Admits : τ → σ → Prop

namespace Service

variable {σ τ α : Type} (service : Service σ τ α)

def Free (r r' : τ) : Prop := ∀ txn, service.txn? r = some txn → service.txn? r' ≠ some txn

def traffic (r : τ) (others : List (Waiting σ τ α)) : Progress σ α → Traffic σ τ α
  | .ended (.ok _ s) => ⟨s, others⟩
  | .ended (.error _ s) => ⟨s, others⟩
  | .waiting s resume => ⟨s, ⟨r, resume⟩ :: others⟩

def record (r : τ) (h : History τ α) : Progress σ α → History τ α
  | .ended (.ok a _) => (r, .ok a) :: h
  | .ended (.error e _) => (r, .error e) :: h
  | .waiting _ _ => h

inductive Run (start : σ) : History τ α → Traffic σ τ α → Prop where
  | start : Run start [] ⟨start, []⟩
  | call {h t} (before : Run start h t) (r : τ) (admitted : service.Admits r t.state)
      (free : ∀ w ∈ t.waiting, service.Free r w.request) :
      Run start (record r h (service.work r t.state))
        (traffic r t.waiting (service.work r t.state))
  | resume {h s front w back} (before : Run start h ⟨s, front ++ w :: back⟩) :
      Run start (record w.request h (w.resume s)) (traffic w.request (front ++ back) (w.resume s))

/- One more stretch, of a new request or of one that waits. -/
inductive Step : History τ α × Traffic σ τ α → History τ α × Traffic σ τ α → Prop where
  | call {h t} (r : τ) (admitted : service.Admits r t.state)
      (free : ∀ w ∈ t.waiting, service.Free r w.request) :
      Step (h, t) (record r h (service.work r t.state),
        traffic r t.waiting (service.work r t.state))
  | resume {h s front w back} :
      Step (h, ⟨s, front ++ w :: back⟩)
        (record w.request h (w.resume s), traffic w.request (front ++ back) (w.resume s))

def next (r : τ) (before : History τ α × Traffic σ τ α) : History τ α × Traffic σ τ α :=
  let progress := service.work r before.2.state
  (record r before.1 progress, traffic r before.2.waiting progress)

theorem Run.alone {start : σ} {before : History τ α × Traffic σ τ α}
    (run : service.Run start before.1 before.2) (r : τ) (admitted : service.Admits r before.2.state)
    (idle : before.2.waiting = []) :
    service.Run start (service.next r before).1 (service.next r before).2 :=
  run.call r admitted (by rw [idle]; exact fun _ there => (List.not_mem_nil there).elim)

theorem Run.wider {start : σ} {h : History τ α} {t : Traffic σ τ α} {admits : τ → σ → Prop}
    (run : service.Run start h t) (more : ∀ r s, service.Admits r s → admits r s) :
    Run {service with Admits := admits} start h t := by
  induction run with
  | start => exact .start
  | call _ r admitted free ih => exact ih.call r (more r _ admitted) free
  | resume _ ih => exact ih.resume

theorem Run.steps {start : σ} {h : History τ α} {t : Traffic σ τ α} (run : service.Run start h t) :
    Relation.ReflTransGen service.Step ([], ⟨start, []⟩) (h, t) := by
  induction run with
  | start => exact .refl
  | call _ r admitted free ih => exact ih.tail (.call r admitted free)
  | resume _ ih => exact ih.tail .resume

theorem Step.alone {before : History τ α × Traffic σ τ α} (r : τ)
    (admitted : service.Admits r before.2.state) (idle : before.2.waiting = []) :
    service.Step before (service.next r before) :=
  .call r admitted (by rw [idle]; exact fun _ there => (List.not_mem_nil there).elim)

theorem settles {s : σ} {r : τ} (admitted : service.Admits r s) (h : History τ α) :
    Relation.ReflTransGen service.Step (h, ⟨s, []⟩)
      (record r h (.ended ((service.work r).settled s)),
        traffic r [] (.ended ((service.work r).settled s))) := by
  have rest : ∀ p : Progress σ α, Relation.ReflTransGen service.Step (record r h p, traffic r [] p)
      (record r h (.ended p.settle), traffic r [] (.ended p.settle)) := by
    intro p
    induction p with
    | ended outcome => exact .refl
    | waiting t resume ih =>
      have goes : service.Step (h, ⟨t, [] ++ ⟨r, resume⟩ :: []⟩) _ := .resume
      exact .head goes (ih t)
  have first : service.Step (h, ⟨s, []⟩) (service.next r (h, ⟨s, []⟩))  :=
    .alone service r admitted rfl
  exact .head first (rest (service.work r s))

/- Nothing that was answered is taken back. -/

theorem recordGrows (r : τ) (h : History τ α) (p : Progress σ α) :
    ∃ later, record r h p = later ++ h := by
  match p with
  | .ended (.ok a _) => exact ⟨[(r, .ok a)], rfl⟩
  | .ended (.error e _) => exact ⟨[(r, .error e)], rfl⟩
  | .waiting _ _ => exact ⟨[], rfl⟩

variable {service} in
theorem historyGrows {x y : History τ α × Traffic σ τ α}
    (steps : Relation.ReflTransGen service.Step x y) : ∃ later, y.1 = later ++ x.1 := by
  induction steps with
  | refl => exact ⟨[], rfl⟩
  | tail _ last ih =>
    obtain ⟨earlier, before⟩ := ih
    cases last with
    | @call h t r _ _ =>
      obtain ⟨later, after⟩ := recordGrows r h (service.work r t.state)
      exact ⟨later ++ earlier, by rw [List.append_assoc, ← before]; exact after⟩
    | @resume h s _ w _ =>
      obtain ⟨later, after⟩ := recordGrows w.request h (w.resume s)
      exact ⟨later ++ earlier, by rw [List.append_assoc, ← before]; exact after⟩

/- What has to be known of single requests for an invariant of whole runs. A stretch
of one request is, for the others that wait, something that others may do. -/
structure Law (inv : History τ α → σ → Prop) (stretch others : τ → σ → σ → Prop)
    (done : τ → σ → α → σ → Prop) : Prop where
  works : ∀ {h s} r, inv h s → service.Admits r s →
    (service.work r s).Meets (stretch r) (others r) (done r) s
  stops : ∀ {h s t} r, inv h s → stretch r s t → inv h t
  fails : ∀ {h s t} r e, inv h s → stretch r s t → inv ((r, .error e) :: h) t
  ends : ∀ {h s t} r a, inv h s → done r s a t → inv ((r, .ok a) :: h) t
  idle : ∀ {h s} r, inv h s → others r s s
  join : ∀ r {s t u}, others r s t → others r t u → others r s u
  aside : ∀ {h s t} r r', inv h s → service.Free r r' → stretch r s t → others r' s t
  asideDone : ∀ {h s t} r r' a, inv h s → service.Free r r' → done r s a t → others r' s t

/- A law for the stretches that leave a state within a guard. -/
structure LawUnder (guard : σ → Prop) (inv : History τ α → σ → Prop)
    (stretch others : τ → σ → σ → Prop) (done : τ → σ → α → σ → Prop) : Prop where
  works : ∀ {h s} r, inv h s → service.Admits r s →
    (service.work r s).Meets (stretch r) (others r) (done r) s
  stops : ∀ {h s t} r, inv h s → guard t → stretch r s t → inv h t
  fails : ∀ {h s t} r e, inv h s → guard t → stretch r s t → inv ((r, .error e) :: h) t
  ends : ∀ {h s t} r a, inv h s → guard t → done r s a t → inv ((r, .ok a) :: h) t
  idle : ∀ {h s} r, inv h s → others r s s
  join : ∀ r {s t u}, others r s t → others r t u → others r s u
  aside : ∀ {h s t} r r', inv h s → guard t → service.Free r r' → stretch r s t → others r' s t
  asideDone : ∀ {h s t} r r' a, inv h s → guard t → service.Free r r' → done r s a t →
    others r' s t

variable {service} {inv : History τ α → σ → Prop} {stretch others : τ → σ → σ → Prop}
  {done : τ → σ → α → σ → Prop}

theorem Law.kept {inv : σ → Prop} {keeps : σ → σ → Prop}
    (kept : ∀ {s t}, inv s → keeps s t → inv t)
    (works : ∀ r s, inv s → service.Admits r s →
      (service.work r s).Meets keeps (fun _ _ => True) (fun s _ t => keeps s t) s) :
    service.Law (fun _ => inv) (fun _ => keeps) (fun _ _ _ => True) (fun _ s _ t => keeps s t) where
  works r holds admitted := works r _ holds admitted
  stops _ := kept
  fails _ _ := kept
  ends _ _ := kept
  idle _ _ := trivial
  join _ _ _ _ _ _ := trivial
  aside _ _ _ _ _ := trivial
  asideDone _ _ _ _ _ _ := trivial

theorem Law.under (law : service.Law inv stretch others done) :
    service.LawUnder (fun _ => True) inv stretch others done where
  works := law.works
  stops r holds _ := law.stops r holds
  fails r e holds _ := law.fails r e holds
  ends r a holds _ := law.ends r a holds
  idle := law.idle
  join := law.join
  aside r r' holds _ := law.aside r r' holds
  asideDone r r' a holds _ := law.asideDone r r' a holds

def Ready (stretch others : τ → σ → σ → Prop) (done : τ → σ → α → σ → Prop) (s : σ)
    (w : Waiting σ τ α) : Prop :=
  ∀ t, others w.request s t →
    (w.resume t).Meets (stretch w.request) (others w.request) (done w.request) t

/- The invariant, and that everybody who waits is ready and waits for himself. -/
structure Orderly (service : Service σ τ α) (inv : History τ α → σ → Prop)
    (stretch others : τ → σ → σ → Prop) (done : τ → σ → α → σ → Prop)
    (h : History τ α) (t : Traffic σ τ α) : Prop where
  holds : inv h t.state
  ready : ∀ w ∈ t.waiting, Ready stretch others done t.state w
  apart : t.waiting.Pairwise fun a b => service.Free a.request b.request

theorem Orderly.start {service : Service σ τ α} {s : σ} (initial : inv [] s) :
    Orderly service inv stretch others done [] ⟨s, []⟩ :=
  ⟨initial, fun _ there => (List.not_mem_nil there).elim, List.Pairwise.nil⟩

theorem Free.symm {r r' : τ} (free : service.Free r r') : service.Free r' r :=
  fun txn mine theirs => free txn theirs mine

theorem freeOfRest {front back : List (Waiting σ τ α)} {w : Waiting σ τ α}
    (apart : (front ++ w :: back).Pairwise fun a b => service.Free a.request b.request) :
    ∀ v ∈ front ++ back, service.Free w.request v.request := by
  obtain ⟨_, ahead, between⟩ := List.pairwise_append.mp apart
  obtain ⟨behind, _⟩ := List.pairwise_cons.mp ahead
  intro v there
  rcases List.mem_append.mp there with there | there
  · exact (between v there w List.mem_cons_self).symm
  · exact behind v there

namespace LawUnder

variable {guard : σ → Prop}

theorem readyAfter (law : service.LawUnder guard inv stretch others done) {s t : σ}
    {w : Waiting σ τ α} (ready : Ready stretch others done s w) (acted : others w.request s t) :
    Ready stretch others done t w :=
  fun _ later => ready _ (law.join w.request acted later)

theorem advance (law : service.LawUnder guard inv stretch others done) {h : History τ α} {s : σ}
    {r : τ} {waiting : List (Waiting σ τ α)} {p : Progress σ α} (holds : inv h s)
    (ready : ∀ w ∈ waiting, Ready stretch others done s w)
    (apart : waiting.Pairwise fun a b => service.Free a.request b.request)
    (free : ∀ w ∈ waiting, service.Free r w.request)
    (meets : p.Meets (stretch r) (others r) (done r) s)
    (within : guard (traffic r waiting p).state) :
    Orderly service inv stretch others done (record r h p) (traffic r waiting p) := by
  cases p with
  | ended outcome =>
    cases outcome with
    | ok a t =>
      exact ⟨law.ends r a holds within meets, fun w there => law.readyAfter (ready w there)
        (law.asideDone r w.request a holds within (free w there) meets), apart⟩
    | error e t =>
      exact ⟨law.fails r e holds within meets, fun w there => law.readyAfter (ready w there)
        (law.aside r w.request holds within (free w there) meets), apart⟩
  | waiting t resume =>
    refine ⟨law.stops r holds within meets.1, fun w there => ?_,
      List.pairwise_cons.mpr ⟨free, apart⟩⟩
    rcases List.mem_cons.mp there with rfl | there
    · exact meets.2
    · exact law.readyAfter (ready w there)
        (law.aside r w.request holds within (free w there) meets.1)

theorem source (law : service.LawUnder guard inv stretch others done)
    {x y : History τ α × Traffic σ τ α}
    (orderly : Orderly service inv stretch others done x.1 x.2) (step : service.Step x y) :
    ∃ r waiting p, y = (record r x.1 p, traffic r waiting p) ∧ waiting.Sublist x.2.waiting ∧
      (∀ w ∈ waiting, service.Free r w.request) ∧
      p.Meets (stretch r) (others r) (done r) x.2.state := by
  cases step with
  | call r admitted free =>
    exact ⟨r, _, _, rfl, .refl _, free, law.works r orderly.holds admitted⟩
  | @resume h s front w back =>
    have own : w ∈ front ++ w :: back := List.mem_append_right _ List.mem_cons_self
    exact ⟨w.request, _, _, rfl, (List.sublist_cons_self w back).append_left front,
      freeOfRest orderly.apart, orderly.ready w own s (law.idle w.request orderly.holds)⟩

theorem step (law : service.LawUnder guard inv stretch others done)
    {x y : History τ α × Traffic σ τ α}
    (orderly : Orderly service inv stretch others done x.1 x.2) (step : service.Step x y)
    (within : guard y.2.state) : Orderly service inv stretch others done y.1 y.2 := by
  obtain ⟨r, waiting, p, rfl, fewer, free, meets⟩ := law.source orderly step
  exact law.advance orderly.holds (fun w there => orderly.ready w (fewer.subset there))
    (orderly.apart.sublist fewer) free meets within

theorem steps (law : service.LawUnder guard inv stretch others done)
    {x y : History τ α × Traffic σ τ α}
    (orderly : Orderly service inv stretch others done x.1 x.2)
    (steps : Relation.ReflTransGen (fun x y => service.Step x y ∧ guard y.2.state) x y) :
    Orderly service inv stretch others done y.1 y.2 := by
  induction steps with
  | refl => exact orderly
  | tail _ last ih => exact law.step ih last.1 last.2

end LawUnder

namespace Law

theorem step (law : service.Law inv stretch others done) {x y : History τ α × Traffic σ τ α}
    (orderly : Orderly service inv stretch others done x.1 x.2) (step : service.Step x y) :
    Orderly service inv stretch others done y.1 y.2 := law.under.step orderly step trivial

theorem answered (law : service.Law inv stretch others done) {h : History τ α}
    {t u : Traffic σ τ α} {r : τ} {a : α} (orderly : Orderly service inv stretch others done h t)
    (step : service.Step (h, t) ((r, .ok a) :: h, u)) :
    done r t.state a u.state ∧ ∀ w ∈ u.waiting, service.Free r w.request := by
  obtain ⟨r', waiting, p, same, _, free, meets⟩ := law.under.source orderly step
  obtain ⟨told, rfl⟩ := Prod.mk.inj same
  cases p with
  | ended outcome =>
    cases outcome <;> obtain ⟨told, _⟩ := List.cons.inj told <;> cases told
    exact ⟨meets, free⟩
  | waiting s resume => exact absurd told.symm List.ne_cons_self

theorem steps (law : service.Law inv stretch others done) {x y : History τ α × Traffic σ τ α}
    (orderly : Orderly service inv stretch others done x.1 x.2)
    (steps : Relation.ReflTransGen service.Step x y) :
    Orderly service inv stretch others done y.1 y.2 := by
  induction steps with
  | refl => exact orderly
  | tail _ last ih => exact law.step ih last

theorem run (law : service.Law inv stretch others done) {start : σ} (initial : inv [] start)
    {h : History τ α} {t : Traffic σ τ α} (run : service.Run start h t) :
    Orderly service inv stretch others done h t :=
  law.steps (.start initial) run.steps

theorem fewer (law : service.Law inv stretch others done) {admits : τ → σ → Prop}
    (less : ∀ r s, admits r s → service.Admits r s) :
    Law {service with Admits := admits} inv stretch others done where
  works r holds admitted := law.works r holds (less r _ admitted)
  stops := law.stops
  fails := law.fails
  ends := law.ends
  idle := law.idle
  join := law.join
  aside := law.aside
  asideDone := law.asideDone

end Law
end Service
end PagedHeap
