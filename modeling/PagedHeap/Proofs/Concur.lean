import PagedHeap.Proofs.Outcome

/-! Two pieces of work that come to the same. Each is done in a state of its own; as long as
neither runs out of places in its cache they give the same answers, and fail in the same way. -/
namespace PagedHeap

def Error.isExhausted : Error → Bool
  | .exhausted _ => true
  | _ => false

variable {σ τ α β : Type} {s m : σ}

/- Both answer, as told, or both fail in the same way and leave states alike, unless one of them
fails for want of a place. -/
def Concur (alike : σ → σ → Prop) (same : α → σ → α → σ → Prop) :
    EStateM.Result Error σ α → EStateM.Result Error σ α → Prop
  | .ok a s, .ok b t => same a s b t
  | .error e s, .error f t => e.isExhausted = true ∨ f.isExhausted = true ∨ e = f ∧ alike s t
  | .ok _ _, .error f _ => f.isExhausted = true
  | .error e _, .ok _ _ => e.isExhausted = true

namespace Concur

variable {alike : σ → σ → Prop} {same : α → σ → α → σ → Prop} {final : β → σ → β → σ → Prop}
  {r r' : EStateM.Result Error σ α} {t : σ} {e : Error}

theorem left (full : e.isExhausted = true) : Concur alike same (.error e s) r' := by
  cases r' with
  | ok b t => exact full
  | error f t => exact .inl full

theorem right (full : e.isExhausted = true) : Concur alike same r (.error e t) := by
  cases r with
  | ok a s => exact full
  | error f s => exact .inr (.inl full)

theorem mono {same' : α → σ → α → σ → Prop} (h : Concur alike same r r')
    (weaker : ∀ a s b t, same a s b t → same' a s b t) : Concur alike same' r r' := by
  cases r with
  | ok a s =>
    cases r' with
    | ok b t => exact weaker a s b t h
    | error f t => exact h
  | error e s => cases r' <;> exact h

theorem andThen {work work' : Instant σ α} {next next' : α → Instant σ β}
    (first : Concur alike same (work s) (work' t))
    (rest : ∀ a m b n, work s = .ok a m → same a m b n →
      Concur alike final (next a m) (next' b n)) :
    Concur alike final ((work >>= next) s) ((work' >>= next') t) := by
  cases mine : work s with
  | ok a m =>
    rw [mine] at first
    cases theirs : work' t with
    | ok b n =>
      rw [theirs] at first
      rw [okThen mine, okThen theirs]
      exact rest a m b n mine first
    | error f n =>
      rw [theirs] at first
      rw [errorThen theirs]
      exact right first
  | error e m =>
    rw [mine] at first
    rw [errorThen mine]
    cases theirs : work' t with
    | ok b n =>
      rw [theirs] at first
      exact left first
    | error f n =>
      rw [theirs] at first
      rw [errorThen theirs]
      exact first

theorem also {fact : α → σ → Prop} {lost : σ → Prop} (h : Concur alike same r r')
    (mine : Ends fact lost r) : Concur alike (fun a s b t => same a s b t ∧ fact a s) r r' := by
  cases r with
  | ok a s =>
    cases r' with
    | ok b t => exact ⟨h, mine⟩
    | error f t => exact h
  | error e s => cases r' <;> exact h

theorem sure {done done' : α → σ → Prop} (mine : Ends done (fun _ => False) r)
    (theirs : Ends done' (fun _ => False) r')
    (both : ∀ a s b t, done a s → done' b t → same a s b t) : Concur alike same r r' := by
  obtain ⟨a, s, rfl, here⟩ := mine.sure
  obtain ⟨b, t, rfl, there⟩ := theirs.sure
  exact both a s b t here there

theorem asked {e : Except Misuse α} {next next' : α → Instant σ β} (alikeNow : alike s t)
    (rest : ∀ a, e = .ok a → Concur alike final (next a s) (next' a t)) :
    Concur alike final ((demand σ e >>= next) s) ((demand σ e >>= next') t) := by
  cases e with
  | ok a => exact rest a rfl
  | error cause => exact .inr (.inr ⟨rfl, alikeNow⟩)

theorem inPart {part : Part σ τ} {work work' : Instant τ α} {near : τ → τ → Prop}
    {told : α → τ → α → τ → Prop}
    (h : Concur near told (work (part.get s)) (work' (part.get t)))
    (wider : ∀ u v, near u v → alike (part.set s u) (part.set t v))
    (tells : ∀ a u b v, told a u b v → same a (part.set s u) b (part.set t v)) :
    Concur alike same (part.instant work s) (part.instant work' t) := by
  unfold Part.instant
  cases mine : work (part.get s) with
  | ok a u =>
    rw [mine] at h
    cases theirs : work' (part.get t) with
    | ok b v =>
      rw [theirs] at h
      exact tells a u b v h
    | error f v =>
      rw [theirs] at h
      exact h
  | error e u =>
    rw [mine] at h
    cases theirs : work' (part.get t) with
    | ok b v =>
      rw [theirs] at h
      exact h
    | error f v =>
      rw [theirs] at h
      exact h.imp id (.imp id fun both => ⟨both.1, wider u v both.2⟩)

theorem forEach {work work' : α → Instant σ PUnit}
    (each : ∀ a s t, alike s t →
      Concur alike (fun _ s _ t => alike s t) (work a s) (work' a t))
    (todo : List α) {s t : σ} (start : alike s t) :
    Concur alike (fun _ s _ t => alike s t) (todo.forM work s) (todo.forM work' t) := by
  induction todo generalizing s t with
  | nil => exact start
  | cons a rest ih =>
    change Concur _ _ ((work a >>= fun _ => rest.forM work) s)
      ((work' a >>= fun _ => rest.forM work') t)
    exact (each a s t start).andThen fun _ m _ n _ there => ih there

end Concur
end PagedHeap
