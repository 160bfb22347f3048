import PagedHeap.Storage.Basic

/-! What the calls of a volume do to what the volumes hold. Looking never changes it,
and a call that fails never does. -/
namespace PagedHeap.Storage

/-- Two states that differ in logs, verdicts and scripts at most. -/
structure SameContent (s t : Storage) : Prop where
  directory : t.directory = s.directory
  size : ∀ v, (t.volume v).pageSize = (s.volume v).pageSize
  medium : ∀ v, (t.volume v).medium = (s.volume v).medium

namespace SameContent

theorem refl (s : Storage) : SameContent s s := ⟨rfl, fun _ => rfl, fun _ => rfl⟩

theorem trans {s t u : Storage} (st : SameContent s t) (tu : SameContent t u) :
    SameContent s u :=
  ⟨tu.directory.trans st.directory, fun v => (tu.size v).trans (st.size v),
    fun v => (tu.medium v).trans (st.medium v)⟩

theorem pageCount {s t : Storage} (h : SameContent s t) (v : VolumeId) :
    t.pageCount v = s.pageCount v := by
  simp only [Storage.pageCount, Storage.pageSize, h.directory, h.size, h.medium]

theorem image {s t : Storage} (h : SameContent s t) (v : VolumeId) (page : UInt32) :
    t.image v page = s.image v page := by
  simp only [Storage.image, Storage.pageSize, h.directory, h.size, h.medium]
  rfl

end SameContent

theorem volumeUpdate (s : Storage) (v w : VolumeId) (change : Volume → Volume) :
    (s.update v change).volume w =
      if v = w ∧ w < s.volumes.length then change (s.volume w) else s.volume w := by
  simp only [volume, update, List.getD_eq_getElem?_getD, List.getElem?_modify]
  by_cases inside : w < s.volumes.length
  · by_cases same : v = w <;> simp [inside, same]
  · simp [inside]

theorem sameUpdate (s : Storage) (v : VolumeId) {change : Volume → Volume}
    (size : ∀ x, (change x).pageSize = x.pageSize) (medium : ∀ x, (change x).medium = x.medium) :
    SameContent s (s.update v change) := by
  refine ⟨rfl, fun w => ?_, fun w => ?_⟩ <;> rw [volumeUpdate] <;> split
  · exact size _
  · rfl
  · exact medium _
  · rfl

/-- What work leaves behind, whether it worked or not. -/
def after {α : Type} (work : Instant Storage α) (s : Storage) : Storage :=
  match work s with
  | .ok _ t => t
  | .error _ t => t

def Looks {α : Type} (work : Instant Storage α) : Prop := ∀ s, SameContent s (after work s)

namespace Looks

theorem bind {α β : Type} {work : Instant Storage α} {next : α → Instant Storage β}
    (first : Looks work) (rest : ∀ a, Looks (next a)) : Looks (work >>= next) := by
  intro s
  have before := first s
  simp only [after] at before ⊢
  change SameContent s (match EStateM.bind work next s with
    | .ok _ t => t
    | .error _ t => t)
  simp only [EStateM.bind]
  cases found : work s with
  | ok a t =>
    rw [found] at before
    exact before.trans (rest a t)
  | error e t =>
    rw [found] at before
    exact before

theorem asks {α : Type} (e : Except Misuse α) : Looks (demand Storage e) := by
  intro s
  cases e <;> exact .refl s

theorem serves {α : Type} (e : Except IoError α) : Looks (served Storage e) := by
  intro s
  cases e <;> exact .refl s

theorem gets : Looks (get : Instant Storage Storage) := fun s => .refl s

theorem logs (v : VolumeId) (call : Call) : Looks (log v call) := fun s =>
  sameUpdate s v (fun _ => rfl) (fun _ => rfl)

theorem meets (v : VolumeId) (point : FaultPoint) (page : Option UInt32) :
    Looks (met v point page) := by
  intro s
  simp only [after, met]
  cases Verdict.take point (s.volume v).verdicts with
  | some hit => exact sameUpdate s v (fun _ => rfl) (fun _ => rfl)
  | none =>
    cases Fault.take point page (s.volume v).script with
    | none => exact .refl s
    | some hit => exact sameUpdate s v (fun _ => rfl) (fun _ => rfl)

theorem passes (v : VolumeId) (point : FaultPoint) (page : Option UInt32) :
    Looks (pass v point page) :=
  (meets v point page).bind fun
    | none => fun s => .refl s
    | some _ => fun s => .refl s

theorem counts (v : VolumeId) : Looks (count v) :=
  (passes v .count none).bind fun _ => gets.bind fun _ s => .refl s

theorem reads (v : VolumeId) (page : UInt32) (length : Nat) : Looks (read v page length) :=
  (logs v (.read page)).bind fun _ => (passes v .read (some page)).bind fun _ =>
    gets.bind fun _ => (asks _).bind fun _ => gets.bind fun _ => serves _

end Looks

theorem afterOk {α : Type} {work : Instant Storage α} {s t : Storage} {a : α}
    (looks : Looks work) (h : work s = .ok a t) : SameContent s t := by
  have same := looks s
  simpa only [after, h] using same

theorem readSource {s t : Storage} {v : VolumeId} {page : UInt32} {length : Nat} {image : Bytes}
    (h : read v page length s = .ok image t) :
    s.image v page = .ok image ∧ length = s.pageSize v := by
  unfold read at h
  obtain ⟨_, a, logged, h⟩ := bindOk h
  obtain ⟨_, b, passed, h⟩ := bindOk h
  obtain ⟨_, c, got, h⟩ := bindOk h
  cases got
  obtain ⟨_, d, checked, h⟩ := bindOk h
  obtain ⟨fits, same⟩ := demandOk checked
  cases same
  obtain ⟨_, e, got, h⟩ := bindOk h
  cases got
  obtain ⟨found, same⟩ := servedOk h
  cases same
  have content := (afterOk (Looks.logs v _) logged).trans (afterOk (Looks.passes v _ _) passed)
  refine ⟨content.image v page ▸ found, ?_⟩
  unfold checkLength at fits
  split at fits
  · rename_i equal
    exact equal.trans (content.size v)
  · cases fits

end PagedHeap.Storage
