import PagedHeap.Activity

/-! What work leads to. Instant work answers or fails. An activity runs in stretches,
from where it starts or goes on to where it stops, fails or ends; between two stretches
others act. What a stretch may do, and what others may do meanwhile, are relations
between the states before and after. -/
namespace PagedHeap

theorem errorBind {ε σ α β : Type} {work : EStateM ε σ α} {next : α → EStateM ε σ β} {s t : σ}
    {e : ε} (h : (work >>= next) s = .error e t) :
    work s = .error e t ∨ ∃ a u, work s = .ok a u ∧ next a u = .error e t := by
  change EStateM.bind work next s = _ at h
  simp only [EStateM.bind] at h
  split at h
  · rename_i a u first
    exact .inr ⟨a, u, first, h⟩
  · rename_i e u first
    cases h
    exact .inl first

/- An answer and a state as told, or a failure that leaves a state as told. -/
def Ends {σ α : Type} (done : α → σ → Prop) (failed : σ → Prop) :
    EStateM.Result Error σ α → Prop
  | .ok a s => done a s
  | .error _ s => failed s

namespace Ends

variable {σ τ α β : Type} {done : α → σ → Prop} {failed : σ → Prop}

theorem mono {done' : α → σ → Prop} {failed' : σ → Prop} {r : EStateM.Result Error σ α}
    (h : Ends done failed r) (answers : ∀ a s, done a s → done' a s)
    (fails : ∀ s, failed s → failed' s) : Ends done' failed' r := by
  cases r with
  | ok a s => exact answers a s h
  | error e s => exact fails s h

theorem andThen {work : Instant σ α} {next : α → Instant σ β} {s : σ} {final : β → σ → Prop}
    {lost : σ → Prop} (first : Ends done failed (work s))
    (rest : ∀ a t, done a t → Ends final lost (next a t)) (fails : ∀ t, failed t → lost t) :
    Ends final lost ((work >>= next) s) := by
  change Ends final lost (EStateM.bind work next s)
  unfold EStateM.bind
  cases ended : work s with
  | ok a t =>
    rw [ended] at first
    exact rest a t first
  | error e t =>
    rw [ended] at first
    exact fails t first

theorem both {done' : α → σ → Prop} {failed' : σ → Prop} {r : EStateM.Result Error σ α}
    (h : Ends done failed r) (h' : Ends done' failed' r) :
    Ends (fun a s => done a s ∧ done' a s) (fun s => failed s ∧ failed' s) r := by
  cases r <;> exact ⟨h, h'⟩

theorem all.{v} {ι : Sort v} {done : ι → α → σ → Prop} {failed : ι → σ → Prop}
    {r : EStateM.Result Error σ α} (each : ∀ i, Ends (done i) (failed i) r) :
    Ends (fun a s => ∀ i, done i a s) (fun s => ∀ i, failed i s) r := by
  cases r <;> exact each

theorem rest {work : Instant σ α} {next : α → Instant σ β} {s t : σ} {a : α} {final : β → σ → Prop}
    (whole : Ends final failed ((work >>= next) s)) (made : work s = .ok a t) :
    Ends final failed (next a t) := okThen made next ▸ whole

theorem sure {r : EStateM.Result Error σ α} (h : Ends done (fun _ => False) r) :
    ∃ a s, r = .ok a s ∧ done a s := by
  cases r with
  | ok a s => exact ⟨a, s, rfl, h⟩
  | error e s => exact h.elim

theorem demand {e : Except Misuse α} {s : σ} (holds : ∀ a, e = .ok a → done a s)
    (fails : failed s) : Ends done failed (demand σ e s) := by
  cases e with
  | ok a => exact holds a rfl
  | error cause => exact fails

theorem served {e : Except IoError α} {s : σ} (holds : ∀ a, e = .ok a → done a s)
    (fails : failed s) : Ends done failed (served σ e s) := by
  cases e with
  | ok a => exact holds a rfl
  | error cause => exact fails

theorem inPart {part : Part σ τ} {work : Instant τ α} {s : σ}
    (h : Ends (fun a t => done a (part.set s t)) (fun t => failed (part.set s t))
      (work (part.get s))) : Ends done failed (part.instant work s) := by
  unfold Part.instant
  cases ended : work (part.get s) with
  | ok a t => rw [ended] at h; exact h
  | error e t => rw [ended] at h; exact h

theorem attempt {work : Activity σ α} {s : σ} (h : Ends done failed (work.settled s)) :
    Ends (fun answer t => match answer with
      | .ok a => done a t
      | .error _ => failed t) (fun _ => False) (work.attempt.settled s) := by
  rw [Activity.settledAttempt]
  cases ended : work.settled s <;> rw [ended] at h <;> exact h

/- Work on the members of a list, one after the other. What holds before a member is
its turn is what the members before it have left. -/
theorem forEach {work : α → Instant σ PUnit} {todo : List α} (stays : List α → σ → Prop)
    (each : ∀ finished a s, a ∈ todo → stays finished s →
      Ends (fun _ t => stays (finished ++ [a]) t) failed (work a s))
    (finished : List α) (s : σ) (start : stays finished s) :
    Ends (fun _ t => stays (finished ++ todo) t) failed (todo.forM work s) := by
  induction todo generalizing finished s with
  | nil =>
    rw [List.append_nil]
    exact start
  | cons a rest ih =>
    change Ends _ _ ((work a >>= fun _ => rest.forM work) s)
    refine (each finished a s List.mem_cons_self start).andThen (fun _ t there => ?_)
      (fun _ lost => lost)
    have whole := ih (fun done b s inside => each done b s (List.mem_cons_of_mem a inside))
      (finished ++ [a]) t there
    rwa [List.append_assoc] at whole

end Ends

def Steps {σ α : Type} (relation : σ → σ → Prop) (work : Instant σ α) : Prop :=
  ∀ s, Ends (fun _ t => relation s t) (relation s) (work s)

namespace Steps

variable {σ τ α β : Type} {relation : σ → σ → Prop}

theorem bind [Trans relation relation relation] {work : Instant σ α} {next : α → Instant σ β}
    (first : Steps relation work) (rest : ∀ a, Steps relation (next a)) :
    Steps relation (work >>= next) := fun s =>
  (first s).andThen (fun a t early => (rest a t).mono (fun _ _ late => Trans.trans early late)
    (fun _ late => Trans.trans early late)) (fun _ early => early)

theorem join {other both : σ → σ → Prop} {work : Instant σ α} (first : Steps relation work)
    (second : Steps other work) (follows : ∀ s t, relation s t → other s t → both s t) :
    Steps both work := fun s =>
  ((first s).both (second s)).mono (fun _ t h => follows s t h.1 h.2)
    (fun t h => follows s t h.1 h.2)

theorem inPart {part : Part σ τ} {inner : τ → τ → Prop} {work : Instant τ α}
    (h : Steps inner work) (widens : ∀ s t, inner (part.get s) t → relation s (part.set s t)) :
    Steps relation (part.instant work) := fun s =>
  Ends.inPart ((h (part.get s)).mono (fun _ t => widens s t) (widens s))

variable [Std.Refl relation]

theorem returns (a : α) : Steps relation (pure a) := fun s => Std.Refl.refl s

theorem throws (cause : Error) : Steps relation (throw cause : Instant σ α) :=
  fun s => Std.Refl.refl s

theorem gets : Steps relation get := fun s => Std.Refl.refl s

theorem asks (e : Except Misuse α) : Steps relation (demand σ e) := fun s =>
  .demand (fun _ _ => Std.Refl.refl s) (Std.Refl.refl s)

theorem serves (e : Except IoError α) : Steps relation (served σ e) := fun s =>
  .served (fun _ _ => Std.Refl.refl s) (Std.Refl.refl s)

theorem forEach [Trans relation relation relation] {work : α → Instant σ PUnit}
    (each : ∀ a, Steps relation (work a)) (todo : List α) : Steps relation (todo.forM work) := by
  induction todo with
  | nil => exact .returns _
  | cons a rest ih => exact (each a).bind fun _ => ih

end Steps

namespace Progress

variable {σ τ α β : Type} {stretch others : σ → σ → Prop} {done : σ → α → σ → Prop}

/- Every stretch of the activity is one of the given kind, whatever others do between
the stretches as long as they keep to theirs; the last one ends as told. -/
def Meets (stretch others : σ → σ → Prop) (done : σ → α → σ → Prop) : Progress σ α → σ → Prop
  | .ended (.ok a t), s => done s a t
  | .ended (.error _ t), s => stretch s t
  | .waiting t resume, s =>
      stretch s t ∧ ∀ u, others t u → Meets stretch others done (resume u) u

theorem meetsEnded {r : EStateM.Result Error σ α} {s : σ} (h : Ends (done s) (stretch s) r) :
    (ended r).Meets stretch others done s := by
  cases r <;> exact h

theorem meetsAny (p : Progress σ α) {s : σ} :
    p.Meets (fun _ _ => True) (fun _ _ => True) (fun _ _ _ => True) s := by
  induction p generalizing s with
  | ended r => cases r <;> trivial
  | waiting t resume ih => exact ⟨trivial, fun u _ => ih u⟩

namespace Meets

theorem ends {r : EStateM.Result Error σ α} {s : σ}
    (h : (ended r).Meets stretch others done s) : Ends (done s) (stretch s) r := by
  cases r <;> exact h

theorem mono {stretch' others' : σ → σ → Prop} {done' : σ → α → σ → Prop} {p : Progress σ α}
    {s : σ} (h : p.Meets stretch others done s) (wider : ∀ a b, stretch a b → stretch' a b)
    (fewer : ∀ a b, others' a b → others a b) (weaker : ∀ a x b, done a x b → done' a x b) :
    p.Meets stretch' others' done' s := by
  induction p generalizing s with
  | ended r =>
    cases r with
    | ok a t => exact weaker s a t h
    | error e t => exact wider s t h
  | waiting t resume ih => exact ⟨wider s t h.1, fun u acted => ih u (h.2 u (fewer t u acted))⟩

theorem andThen {p : Progress σ α} {next : α → σ → Progress σ β} {final : σ → β → σ → Prop}
    {s : σ} (first : p.Meets stretch others done s)
    (rest : ∀ s a t, done s a t → (next a t).Meets stretch others final s) :
    (p.andThen next).Meets stretch others final s := by
  induction p generalizing s with
  | ended r =>
    cases r with
    | ok a t => exact rest s a t first
    | error e t => exact first
  | waiting t resume ih => exact ⟨first.1, fun u acted => ih u (first.2 u acted)⟩

theorem attempt {p : Progress σ α} {s : σ} (h : p.Meets stretch others done s) :
    p.attempt.Meets stretch others (fun s answer t => match answer with
      | .ok a => done s a t
      | .error _ => stretch s t) s := by
  induction p generalizing s with
  | ended r => cases r <;> exact h
  | waiting t resume ih => exact ⟨h.1, fun u acted => ih u (h.2 u acted)⟩

theorem both {stretch' : σ → σ → Prop} {done' : σ → α → σ → Prop} {p : Progress σ α} {s : σ}
    (h : p.Meets stretch others done s) (h' : p.Meets stretch' others done' s) :
    p.Meets (fun a b => stretch a b ∧ stretch' a b) others
      (fun a x b => done a x b ∧ done' a x b) s := by
  induction p generalizing s with
  | ended r => cases r <;> exact ⟨h, h'⟩
  | waiting t resume ih => exact ⟨⟨h.1, h'.1⟩, fun u acted => ih u (h.2 u acted) (h'.2 u acted)⟩

theorem follow {p : Progress σ α} {r s : σ} (still : ∀ a, stretch a a)
    (join : ∀ a b c, stretch a b → stretch b c → stretch a c) (before : stretch r s)
    (h : p.Meets stretch others done s) :
    p.Meets stretch others (fun a x b => ∃ m, stretch a m ∧ done m x b) r := by
  cases p with
  | ended outcome =>
    cases outcome with
    | ok a t => exact ⟨s, before, h⟩
    | error e t => exact join r s t before h
  | waiting t resume =>
    refine ⟨join r s t before h.1, fun u acted => (h.2 u acted).mono ?_ ?_ ?_⟩
    · exact fun _ _ same => same
    · exact fun _ _ same => same
    · exact fun a x b ended => ⟨a, still a, ended⟩

theorem chain {p : Progress σ α} {next : α → σ → Progress σ β} {s : σ} (still : ∀ a, stretch a a)
    (join : ∀ a b c, stretch a b → stretch b c → stretch a c)
    (first : p.Meets stretch others (fun a _ b => stretch a b) s)
    (rest : ∀ x t, (next x t).Meets stretch others (fun a _ b => stretch a b) t) :
    (p.andThen next).Meets stretch others (fun a _ b => stretch a b) s :=
  first.andThen fun _ x t before =>
    (follow still join before (rest x t)).mono (fun _ _ same => same) (fun _ _ same => same)
      fun _ _ _ ended => by
        obtain ⟨_, early, late⟩ := ended
        exact join _ _ _ early late

/- Where only the ends of stretches are told, it does not matter where work sets out. -/
theorem anywhere {stretch : σ → Prop} {others : σ → σ → Prop} {done : α → σ → Prop}
    {p : Progress σ α} {r s : σ}
    (h : p.Meets (fun _ b => stretch b) others (fun _ x b => done x b) s) :
    p.Meets (fun _ b => stretch b) others (fun _ x b => done x b) r := by
  cases p with
  | ended outcome => cases outcome <;> exact h
  | waiting t resume => exact h

theorem keepAll (fact : σ → Prop) {p : Progress σ α} {s : σ}
    (byOwn : ∀ a b, fact a → stretch a b → fact b) (byOthers : ∀ a b, fact a → others a b → fact b)
    (holds : fact s) (h : p.Meets stretch others done s) :
    p.Meets (fun a b => fact a ∧ stretch a b) others (fun a x b => fact a ∧ done a x b) s := by
  induction p generalizing s with
  | ended r =>
    cases r with
    | ok a t => exact ⟨holds, h⟩
    | error e t => exact ⟨holds, h⟩
  | waiting t resume ih =>
    exact ⟨⟨holds, h.1⟩,
      fun u acted => ih u (byOthers t u (byOwn s t holds h.1) acted) (h.2 u acted)⟩

theorem keep (fact : σ → Prop) {p : Progress σ α} {s : σ}
    (byOwn : ∀ a b, fact a → stretch a b → fact b) (byOthers : ∀ a b, fact a → others a b → fact b)
    (holds : fact s) (h : p.Meets stretch others done s) :
    p.Meets stretch others (fun a x b => fact a ∧ done a x b) s :=
  (h.keepAll fact byOwn byOthers holds).mono (fun _ _ both => both.2) (fun _ _ same => same)
    (fun _ _ _ same => same)

theorem settled (inv : σ → Prop) {p : Progress σ α} {s : σ} (still : ∀ a, stretch a a)
    (join : ∀ a b c, stretch a b → stretch b c → stretch a c)
    (own : ∀ a b, inv a → stretch a b → inv b) (idle : ∀ a, inv a → others a a) (holds : inv s)
    (h : p.Meets stretch others done s) :
    Ends (fun x t => ∃ m, stretch s m ∧ done m x t) (stretch s) p.settle := by
  induction p generalizing s with
  | ended r =>
    cases r with
    | ok a t => exact ⟨s, still s, h⟩
    | error e t => exact h
  | waiting t resume ih =>
    have there := own s t holds h.1
    refine (ih t there (h.2 t (idle t there))).mono (fun x u ended => ?_)
      (fun u later => join s t u h.1 later)
    obtain ⟨m, later, last⟩ := ended
    exact ⟨m, join s t m h.1 later, last⟩

theorem settle {p : Progress σ α} {s : σ} (still : ∀ a, stretch a a) (idle : ∀ a, others a a)
    (join : ∀ a b c, stretch a b → stretch b c → stretch a c)
    (h : p.Meets stretch others (fun a _ b => stretch a b) s) :
    Ends (fun _ t => stretch s t) (stretch s) p.settle := by
  have parts := h.settled (fun _ => True) still join (fun _ _ _ _ => trivial) (fun a _ => idle a)
    trivial
  refine parts.mono (fun _ t ended => ?_) (fun _ lost => lost)
  obtain ⟨m, before, last⟩ := ended
  exact join s m t before last

theorem inPart {part : Part σ τ} {p : Progress τ α} {s : σ} {stretch others : τ → τ → Prop}
    {done : τ → α → τ → Prop} (h : p.Meets stretch others done (part.get s)) :
    (p.within part s).Meets (fun a b => stretch (part.get a) (part.get b) ∧
      b = part.set a (part.get b)) (fun a b => others (part.get a) (part.get b))
      (fun a x b => done (part.get a) x (part.get b) ∧ b = part.set a (part.get b)) s := by
  induction p generalizing s with
  | ended r =>
    cases r with
    | ok a t =>
      refine ⟨?_, ?_⟩ <;> simp only [part.getSet]
      exact h
    | error e t =>
      refine ⟨?_, ?_⟩ <;> simp only [part.getSet]
      exact h
  | waiting t resume ih =>
    refine ⟨⟨?_, ?_⟩, fun u acted => ih (part.get u) (h.2 _ ?_)⟩
    · simpa only [part.getSet] using h.1
    · simp only [part.getSet]
    · simpa only [part.getSet] using acted

end Meets
end Progress

def Upholds {σ α : Type} (keeps : σ → σ → Prop) (work : Activity σ α) : Prop :=
  ∀ s, (work s).Meets keeps (fun _ _ => True) (fun s _ t => keeps s t) s

namespace Upholds

variable {σ τ α β : Type} {keeps : σ → σ → Prop}

theorem lift {work : Instant σ α} (steps : Steps keeps work) : Upholds keeps (monadLift work) :=
  fun s => Progress.meetsEnded (steps s)

theorem within {part : Part σ τ} {inner : τ → τ → Prop} {work : Activity τ α}
    (h : Upholds inner work) (widens : ∀ s t, inner (part.get s) t → keeps s (part.set s t)) :
    Upholds keeps (work.within part) := fun s => by
  have wider (s u : σ) (inside : inner (part.get s) (part.get u))
      (same : u = part.set s (part.get u)) : keeps s u := by
    rw [same]
    exact widens s _ inside
  exact (Progress.Meets.inPart (h (part.get s))).mono (fun a b same => wider a b same.1 same.2)
    (fun _ _ any => any) (fun a _ b same => wider a b same.1 same.2)

variable [Std.Refl keeps]

theorem returns (a : α) : Upholds keeps (pure a) := fun s => Std.Refl.refl (r := keeps) s

variable [Trans keeps keeps keeps]

theorem bind {work : Activity σ α} {next : α → Activity σ β} (first : Upholds keeps work)
    (rest : ∀ a, Upholds keeps (next a)) : Upholds keeps (work >>= next) := fun s =>
  Progress.Meets.chain Std.Refl.refl (fun _ _ _ => Trans.trans) (first s) rest

theorem map {work : Activity σ α} (h : Upholds keeps work) (f : α → β) :
    Upholds keeps (f <$> work) := h.bind fun a => .returns (f a)

theorem settled {work : Activity σ α} (h : Upholds keeps work) : Steps keeps work.settled :=
  fun s => (h s).settle Std.Refl.refl (fun _ => trivial) fun _ _ _ => Trans.trans

end Upholds
end PagedHeap
