import PagedHeap.Error

/-! Work on a state. An instant piece of work runs to its end; an activity may stop in
a state that others change before it goes on. Left alone an activity settles: it goes
on from the very state in which it stopped. A failure keeps the changes made so far. -/
namespace PagedHeap

abbrev Instant := EStateM Error

theorem bindOk {ε σ α β : Type} {work : EStateM ε σ α} {next : α → EStateM ε σ β} {s t : σ}
    {b : β} (h : (work >>= next) s = .ok b t) : ∃ a u, work s = .ok a u ∧ next a u = .ok b t := by
  change EStateM.bind work next s = _ at h
  simp only [EStateM.bind] at h
  split at h
  · rename_i a u first
    exact ⟨a, u, first, h⟩
  · cases h

theorem getThen {ε σ α : Type} (next : σ → EStateM ε σ α) (s : σ) :
    (get >>= next) s = next s s := rfl

theorem okThen {ε σ α β : Type} {work : EStateM ε σ α} {s t : σ} {a : α}
    (made : work s = .ok a t) (next : α → EStateM ε σ β) : (work >>= next) s = next a t := by
  simp only [bind, EStateM.bind, made]

theorem errorThen {ε σ α β : Type} {work : EStateM ε σ α} {s t : σ} {e : ε}
    (made : work s = .error e t) (next : α → EStateM ε σ β) :
    (work >>= next) s = .error e t := by
  simp only [bind, EStateM.bind, made]

/- Work that only asks, and fails if the answer is no. -/

def demand (σ : Type) {α : Type} : Except Misuse α → Instant σ α
  | .ok a => pure a
  | .error cause => throw (.invalid cause)

def served (σ : Type) {α : Type} : Except IoError α → Instant σ α
  | .ok a => pure a
  | .error cause => throw (.storage cause)

theorem demandOk {σ α : Type} {e : Except Misuse α} {a : α} {s t : σ}
    (h : demand σ e s = .ok a t) : e = .ok a ∧ s = t := by
  cases e <;> cases h
  exact ⟨rfl, rfl⟩

theorem servedOk {σ α : Type} {e : Except IoError α} {a : α} {s t : σ}
    (h : served σ e s = .ok a t) : e = .ok a ∧ s = t := by
  cases e <;> cases h
  exact ⟨rfl, rfl⟩

/-- A part of a state. Work on the part leaves the rest as it is. -/
structure Part (σ τ : Type) where
  get : σ → τ
  set : σ → τ → σ
  getSet : ∀ s t, get (set s t) = t := by intros; rfl
  setSet : ∀ s t u, set (set s t) u = set s u := by intros; rfl

namespace Part

variable {ε σ τ α : Type}

def outcome (part : Part σ τ) (s : σ) : EStateM.Result ε τ α → EStateM.Result ε σ α
  | .ok a t => .ok a (part.set s t)
  | .error e t => .error e (part.set s t)

def instant (part : Part σ τ) (work : EStateM ε τ α) : EStateM ε σ α := fun s =>
  part.outcome s (work (part.get s))

end Part

/- How far an activity has come. -/

inductive Progress (σ α : Type) where
  | ended (outcome : EStateM.Result Error σ α)
  | waiting (state : σ) (resume : σ → Progress σ α)

namespace Progress

variable {σ τ α β : Type}

def settle : Progress σ α → EStateM.Result Error σ α
  | .ended outcome => outcome
  | .waiting s resume => (resume s).settle

def andThen (next : α → σ → Progress σ β) : Progress σ α → Progress σ β
  | .ended (.ok a s) => next a s
  | .ended (.error e s) => .ended (.error e s)
  | .waiting s resume => .waiting s (fun t => (resume t).andThen next)

def attempt : Progress σ α → Progress σ (Except Error α)
  | .ended (.ok a s) => .ended (.ok (.ok a) s)
  | .ended (.error e s) => .ended (.ok (.error e) s)
  | .waiting s resume => .waiting s (fun t => (resume t).attempt)

def within (part : Part σ τ) (s : σ) : Progress τ α → Progress σ α
  | .ended outcome => .ended (part.outcome s outcome)
  | .waiting t resume =>
      .waiting (part.set s t) (fun s => (resume (part.get s)).within part s)

end Progress

def Activity (σ α : Type) : Type := σ → Progress σ α

namespace Activity

variable {σ τ α β : Type}

instance : Monad (Activity σ) where
  pure a := fun s => .ended (.ok a s)
  bind work next := fun s => (work s).andThen next

instance : MonadLift (Instant σ) (Activity σ) where
  monadLift work := fun s => .ended (work s)

def fail (e : Error) : Activity σ α := fun s => .ended (.error e s)

def attempt (work : Activity σ α) : Activity σ (Except Error α) := fun s => (work s).attempt

def settled (work : Activity σ α) : Instant σ α := fun s => (work s).settle

def within (part : Part σ τ) (work : Activity τ α) : Activity σ α := fun s =>
  (work (part.get s)).within part s

/- What settling makes of each way of putting activities together. -/

theorem settleAndThen (next : α → Activity σ β) (p : Progress σ α) :
    (p.andThen next).settle = match p.settle with
      | .ok a s => (next a s).settle
      | .error e s => .error e s := by
  induction p with
  | ended outcome => cases outcome <;> rfl
  | waiting s resume ih => exact ih s

theorem settledPure (a : α) : (pure a : Activity σ α).settled = pure a := rfl

theorem settledLift (work : Instant σ α) : (monadLift work : Activity σ α).settled = work := rfl

theorem settledBind (work : Activity σ α) (next : α → Activity σ β) :
    (work >>= next).settled = work.settled >>= fun a => (next a).settled := by
  funext s
  simp only [settled, bind, EStateM.bind, settleAndThen]
  cases (work s).settle <;> rfl

theorem settledMap (f : α → β) (work : Activity σ α) :
    (f <$> work).settled = work.settled >>= fun a => pure (f a) := settledBind work _

theorem settledIte (c : Prop) [Decidable c] (yes no : Activity σ α) :
    (if c then yes else no).settled = if c then yes.settled else no.settled := by
  split <;> rfl

theorem settledAttempt (work : Activity σ α) (s : σ) :
    work.attempt.settled s = match work.settled s with
      | .ok a t => .ok (.ok a) t
      | .error e t => .ok (.error e) t := by
  have whole : ∀ p : Progress σ α, p.attempt.settle = match p.settle with
      | .ok a t => .ok (.ok a) t
      | .error e t => .ok (.error e) t := by
    intro p
    induction p with
    | ended outcome => cases outcome <;> rfl
    | waiting t resume ih => exact ih t
  exact whole (work s)

theorem settledWithin (part : Part σ τ) (work : Activity τ α) :
    (work.within part).settled = part.instant work.settled := by
  have whole : ∀ (p : Progress τ α) (s : σ),
      (p.within part s).settle = part.outcome s p.settle := by
    intro p
    induction p with
    | ended outcome => intro s; rfl
    | waiting t resume ih =>
      intro s
      simp only [Progress.within, Progress.settle, part.getSet, ih]
      cases (resume t).settle <;> simp only [Part.outcome, part.setSet]
  funext s
  exact whole (work (part.get s)) s

end Activity
end PagedHeap
