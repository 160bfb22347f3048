import PagedHeap.Page.Laws
import PagedHeap.Storage.Laws
import PagedHeap.Proofs.Outcome

/-! Volumes as rows of pages. Storing a page changes that page alone, growing adds one
at the end, and neither is seen on a volume that shares no file. -/
namespace PagedHeap

namespace Bytes

theorem spliceElsewhere {image : Bytes} {offset : Nat} {data : Bytes} {i : Nat}
    (within : offset ≤ image.length) (away : i < offset ∨ offset + data.length ≤ i) :
    (splice image offset data)[i]? = image[i]? := by
  rcases away with before | behind
  · exact spliceBefore data before (Nat.lt_of_lt_of_le before within)
  · exact spliceBehind behind

theorem spliceSize {image : Bytes} {offset : Nat} {data : Bytes} (within : offset ≤ image.length) :
    (splice image offset data).length = max image.length (offset + data.length) := by
  simp only [splice, List.length_append, List.length_take, List.length_drop,
    List.length_replicate]
  omega

theorem pageSplice {bytes data : Bytes} {size n : Nat} (within : n * size ≤ bytes.length)
    (whole : data.length = size) (m : Nat) :
    slice (splice bytes (n * size) data) (m * size) size =
      if m = n then data else slice bytes (m * size) size := by
  split
  · rename_i same
    rw [same, ← whole]
    exact sliceSplice ..
  · rename_i apart
    refine Page.sliceEq fun i start stop => spliceElsewhere within ?_
    rcases Nat.lt_or_gt_of_ne apart with before | behind
    · have step : (m + 1) * size ≤ n * size := Nat.mul_le_mul_right _ before
      rw [Nat.add_mul, Nat.one_mul] at step
      exact .inl (by omega)
    · have step : (n + 1) * size ≤ m * size := Nat.mul_le_mul_right _ behind
      rw [Nat.add_mul, Nat.one_mul] at step
      exact .inr (by omega)

end Bytes

namespace Storage

/- How many pages a volume has, whether or not they can be counted in words. -/
def pages (s : Storage) (v : VolumeId) : Nat :=
  match (s.volume v).medium with
  | .memory pages => pages.length
  | .file name => (s.directory.content name).size / s.pageSize v

def page? (s : Storage) (v : VolumeId) (n : Nat) : Option Bytes :=
  match (s.volume v).medium with
  | .memory pages => pages[n]?
  | .file name =>
    let image := Bytes.slice (s.directory.bytes name) (n * s.pageSize v) (s.pageSize v)
    if image.length = s.pageSize v then some image else none

theorem pageCountPages (s : Storage) (v : VolumeId) : s.pageCount v = .ofNat (s.pages v) := by
  unfold pageCount pages
  cases (s.volume v).medium <;> rfl

theorem sliceInside {bytes : Bytes} {n size : Nat}
    (whole : (Bytes.slice bytes (n * size) size).length = size) : n * size ≤ bytes.length := by
  simp only [Bytes.slice, List.length_take, List.length_drop] at whole
  rcases Nat.eq_zero_or_pos size with none | some
  · rw [none, Nat.mul_zero]
    exact Nat.zero_le _
  · omega

theorem imageIff {s : Storage} {v : VolumeId} {page : UInt32} {image : Bytes} :
    s.image v page = .ok image ↔ s.page? v page.toNat = some image := by
  unfold Storage.image page?
  cases (s.volume v).medium with
  | memory pages =>
    simp only
    cases pages[page.toNat]? <;> simp
  | file name =>
    simp only [Content.sliceBytes, Directory.bytes]
    by_cases whole : (Bytes.slice (s.directory.content name).bytes (page.toNat * s.pageSize v)
      (s.pageSize v)).length = s.pageSize v
    · have inside := Directory.reachesInside (d := s.directory) (sliceInside whole)
      simp [whole, inside]
    · simp only [whole, if_false]
      split <;> simp

theorem pageBound {s : Storage} {v : VolumeId} {n : Nat} {image : Bytes}
    (positive : 0 < s.pageSize v) (found : s.page? v n = some image) : n < s.pages v := by
  unfold page? at found
  unfold pages
  cases medium : (s.volume v).medium with
  | memory pages =>
    simp only [medium] at found
    exact (List.getElem?_eq_some_iff.mp found).1
  | file name =>
    simp only [medium] at found
    split at found
    · rename_i whole
      simp only [Bytes.slice, List.length_take, List.length_drop, Directory.bytes,
        Content.bytesLength] at whole
      refine (Nat.le_div_iff_mul_le positive).mpr ?_
      rw [Nat.succ_mul]
      omega
    · cases found

def Apart (s : Storage) (v w : VolumeId) : Prop :=
  v ≠ w ∧ ∀ a b, (s.volume v).medium = .file a → (s.volume w).medium = .file b → a ≠ b

theorem Apart.symm {s : Storage} {v w : VolumeId} (h : s.Apart v w) : s.Apart w v :=
  ⟨h.1.symm, fun a b left right => (h.2 b a right left).symm⟩

/- Nothing is laid up for calls of a kind: they cannot go wrong. -/
def Spares (s : Storage) (v : VolumeId) (point : FaultPoint) : Prop :=
  (∀ x ∈ (s.volume v).verdicts, x.point = point → x.cause = none) ∧
    ∀ f ∈ (s.volume v).script, f.point ≠ point

theorem sparesAll {s : Storage} {v : VolumeId} {point : FaultPoint}
    (verdicts : (s.volume v).verdicts = []) (script : (s.volume v).script = []) :
    s.Spares v point := by
  rw [Spares, verdicts, script]
  exact ⟨nofun, nofun⟩

/- Later states of the same volumes: they keep their place and do not shrink. -/
structure Follows (s t : Storage) : Prop where
  size : ∀ v, t.pageSize v = s.pageSize v
  files : ∀ v name, (t.volume v).medium = .file name ↔ (s.volume v).medium = .file name
  grown : ∀ v, s.pages v ≤ t.pages v
  spares : ∀ v point, s.Spares v point → t.Spares v point

namespace Follows

theorem refl (s : Storage) : Follows s s :=
  ⟨fun _ => rfl, fun _ _ => Iff.rfl, fun _ => Nat.le_refl _, fun _ _ h => h⟩

theorem trans {s t u : Storage} (st : Follows s t) (tu : Follows t u) : Follows s u :=
  ⟨fun v => (tu.size v).trans (st.size v), fun v name => (tu.files v name).trans (st.files v name),
    fun v => Nat.le_trans (st.grown v) (tu.grown v),
    fun v point h => tu.spares v point (st.spares v point h)⟩

theorem apart {s t : Storage} (h : Follows s t) {v w : VolumeId} (apart : s.Apart v w) :
    t.Apart v w :=
  ⟨apart.1, fun a b left right => apart.2 a b ((h.files v a).mp left) ((h.files w b).mp right)⟩

theorem wereApart {s t : Storage} (h : Follows s t) {v w : VolumeId} (apart : t.Apart v w) :
    s.Apart v w :=
  ⟨apart.1, fun a b left right => apart.2 a b ((h.files v a).mpr left) ((h.files w b).mpr right)⟩

end Follows

namespace SameContent

theorem symm {s t : Storage} (h : SameContent s t) : SameContent t s :=
  ⟨h.directory.symm, fun v => (h.size v).symm, fun v => (h.medium v).symm⟩

theorem pages {s t : Storage} (h : SameContent s t) (v : VolumeId) : t.pages v = s.pages v := by
  simp only [Storage.pages, Storage.pageSize, h.directory, h.size, h.medium]

theorem page? {s t : Storage} (h : SameContent s t) (v : VolumeId) (n : Nat) :
    t.page? v n = s.page? v n := by
  simp only [Storage.page?, Storage.pageSize, h.directory, h.size, h.medium]
  rfl

end SameContent

/- Two states with the same pages, of which the later one has fewer faults to come. -/
structure Observed (s t : Storage) : Prop extends SameContent s t where
  spares : ∀ v point, s.Spares v point → t.Spares v point

namespace Observed

theorem refl (s : Storage) : Observed s s := ⟨.refl s, fun _ _ h => h⟩

theorem trans {s t u : Storage} (st : Observed s t) (tu : Observed t u) : Observed s u :=
  ⟨st.toSameContent.trans tu.toSameContent,
    fun v point h => tu.spares v point (st.spares v point h)⟩

theorem follows {s t : Storage} (h : Observed s t) : Follows s t :=
  ⟨h.size, fun v name => by rw [h.medium], fun v => Nat.le_of_eq (h.pages v).symm, h.spares⟩

end Observed

/- A change of one volume. -/

structure ChangedAt (s t : Storage) (v : VolumeId) : Prop extends Follows s t where
  others : ∀ w, s.Apart v w → (∀ n, t.page? w n = s.page? w n) ∧ t.pages w = s.pages w

theorem changedMemory {s : Storage} {v : VolumeId} {old new : List Bytes}
    (medium : (s.volume v).medium = .memory old) (longer : old.length ≤ new.length) :
    ChangedAt s (s.update v ({· with medium := .memory new})) v := by
  have same (w : VolumeId) : (s.update v ({· with medium := .memory new})).volume w =
      if v = w ∧ w < s.volumes.length then {s.volume w with medium := .memory new}
      else s.volume w := volumeUpdate ..
  have away {w : VolumeId} (apart : v ≠ w) :
      (s.update v ({· with medium := .memory new})).volume w = s.volume w := by
    rw [same, if_neg fun own => apart own.1]
  refine ⟨⟨fun w => ?_, fun w name => ?_, fun w => ?_, fun w point => ?_⟩, fun w apart => ?_⟩
  · simp only [pageSize, same]
    split <;> rfl
  · rw [same]
    split
    · rename_i own
      rw [← own.1, medium]
      simp
    · exact Iff.rfl
  · by_cases own : v = w ∧ w < s.volumes.length
    · obtain ⟨rfl, inside⟩ := own
      simp only [pages, same, inside, and_self, if_true, medium]
      exact longer
    · simp only [pages, pageSize, same, if_neg own]
      exact Nat.le_refl _
  · simp only [Spares, same]
    split <;> exact fun h => h
  · simp only [page?, pages, pageSize, away apart.1]
    exact ⟨fun n => rfl, rfl⟩

theorem changedFile {s : Storage} {v : VolumeId} {name : String} {content : Content}
    (medium : (s.volume v).medium = .file name)
    (longer : (s.directory.content name).size ≤ content.size) :
    ChangedAt s {s with directory := s.directory.put name content} v := by
  have same (w : VolumeId) :
      ({s with directory := s.directory.put name content} : Storage).volume w = s.volume w := rfl
  refine ⟨⟨fun w => rfl, fun w name => Iff.rfl, fun w => ?_, fun w point h => h⟩,
    fun w apart => ?_⟩
  · simp only [pages, pageSize, same, Directory.contentPut]
    cases found : (s.volume w).medium with
    | memory pages => exact Nat.le_refl _
    | file other =>
      by_cases here : name = other
      · subst here
        simp only [if_true]
        exact Nat.div_le_div_right longer
      · simp only [here, if_false]
        exact Nat.le_refl _
  · simp only [page?, pages, pageSize, same, Directory.contentPut, Directory.bytesPut]
    cases found : (s.volume w).medium with
    | memory pages => exact ⟨fun n => rfl, rfl⟩
    | file other =>
      have here : ¬ name = other := apart.2 name other medium found
      simp only [here, if_false, and_true]
      exact fun n => rfl

structure Stored (s t : Storage) (v : VolumeId) (page : UInt32) (image : Bytes) : Prop
    extends ChangedAt s t v where
  page : ∀ n, t.page? v n = if n = page.toNat then some image else s.page? v n
  pages : t.pages v = s.pages v

theorem fileRoom {s : Storage} {v : VolumeId} {name : String} {n : Nat}
    (medium : (s.volume v).medium = .file name) (inside : n < s.pages v) :
    n * s.pageSize v + s.pageSize v ≤ (s.directory.bytes name).length := by
  simp only [Storage.pages, medium] at inside
  have room := (Nat.le_div_iff_mul_le (Nat.pos_of_ne_zero fun none => by
    rw [none, Nat.div_zero] at inside
    cases inside)).mp inside
  rw [Nat.succ_mul] at room
  simpa only [Directory.bytes, Content.bytesLength] using room

theorem volumeOutside {s : Storage} {v : VolumeId} (outside : s.volumes.length ≤ v) :
    s.volume v = default := by
  simp only [volume, List.getD_eq_getElem?_getD, List.getElem?_eq_none outside]
  rfl

theorem volumeInside {s : Storage} {v : VolumeId} {n : Nat} (inside : n < s.pages v) :
    v < s.volumes.length := by
  refine Nat.lt_of_not_le fun outside => ?_
  unfold Storage.pages at inside
  rw [volumeOutside outside] at inside
  cases inside

theorem volumePresent {s : Storage} {v : VolumeId} (positive : 0 < s.pageSize v) :
    v < s.volumes.length := by
  refine Nat.lt_of_not_le fun outside => ?_
  rw [pageSize, volumeOutside outside] at positive
  cases positive

theorem ownVolume {s : Storage} {v : VolumeId} (inside : v < s.volumes.length)
    (change : Volume → Volume) : (s.update v change).volume v = change (s.volume v) := by
  rw [volumeUpdate, if_pos ⟨rfl, inside⟩]

theorem stored {s t : Storage} {v : VolumeId} {page : UInt32} {image : Bytes}
    (inside : page.toNat < s.pages v) (whole : image.length = s.pageSize v)
    (h : s.store v page image = .ok t) : Stored s t v page image := by
  unfold store at h
  cases medium : (s.volume v).medium with
  | memory pages =>
    simp only [medium] at h
    split at h
    · rename_i short
      cases h
      have longer : pages.length ≤ (pages.set page.toNat image).length :=
        Nat.le_of_eq (List.length_set ..).symm
      have changed := changedMemory medium longer
      have own := ownVolume (volumeInside inside)
        ({· with medium := .memory (pages.set page.toNat image)})
      refine ⟨changed, fun n => ?_, ?_⟩
      · simp only [page?, own, medium, List.getElem?_set]
        by_cases here : n = page.toNat
        · subst here
          simp [short]
        · have there : ¬ page.toNat = n := fun e => here e.symm
          simp [here, there]
      · simp only [Storage.pages, own, medium, List.length_set]
    · cases h
  | file name =>
    have room := fileRoom medium inside
    have start : page.toNat * s.pageSize v ≤ (s.directory.bytes name).length := by omega
    simp only [medium, Directory.reachesInside start, if_true] at h
    cases h
    have kept : ((s.directory.content name).splice (page.toNat * s.pageSize v) image).size =
        (s.directory.content name).size := by
      rw [← Content.bytesLength, Content.bytesSplice, ← Directory.bytes, Bytes.spliceSize start,
        whole, ← Content.bytesLength]
      exact Nat.max_eq_left room
    refine ⟨changedFile medium (Nat.le_of_eq kept.symm), fun n => ?_, ?_⟩
    · have slices := Bytes.pageSplice start whole n
      simp only [page?, pageSize, volume] at slices medium whole ⊢
      simp only [medium, Directory.bytesPut, if_true, Content.bytesSplice,
        show (s.directory.content name).bytes = s.directory.bytes name from rfl, slices]
      by_cases here : n = page.toNat
      · simp [here, whole]
      · simp [here]
    · simp only [Storage.pages, pageSize, volume] at medium ⊢
      simp only [medium, Directory.contentPut, if_true]
      simp only [pageSize, volume] at kept
      rw [kept]

structure Extended (s t : Storage) (v : VolumeId) (image : Bytes) : Prop
    extends ChangedAt s t v where
  page : ∀ n, t.page? v n = if n = s.pages v then some image else s.page? v n
  pages : t.pages v = s.pages v + 1

theorem extendChanged {s : Storage} {v : VolumeId} {image : Bytes} :
    ChangedAt s (s.extend v image).2 v := by
  unfold extend
  cases medium : (s.volume v).medium with
  | memory pages =>
    simp only
    exact changedMemory medium (by simp)
  | file name =>
    simp only
    refine changedFile medium ?_
    rw [← Content.bytesLength, ← Content.bytesLength, Content.bytesSplice]
    simp only [Bytes.splice, List.length_append, List.length_take, List.length_drop,
      List.length_replicate]
    omega

theorem extended {s : Storage} {v : VolumeId} {image : Bytes} (positive : 0 < s.pageSize v)
    (whole : image.length = s.pageSize v) (few : s.pages v < UInt32.size) :
    Extended s (s.extend v image).2 v image := by
  have changed : ChangedAt s (s.extend v image).2 v := extendChanged
  revert changed
  unfold extend
  cases medium : (s.volume v).medium with
  | memory pages =>
    simp only
    intro changed
    have own := ownVolume (volumePresent positive) ({· with medium := .memory (pages ++ [image])})
    refine ⟨changed, fun n => ?_, ?_⟩
    · simp only [page?, Storage.pages, own, medium]
      by_cases here : n = pages.length
      · simp [here]
      · by_cases before : n < pages.length
        · rw [List.getElem?_append_left before, if_neg here]
        · rw [if_neg here, List.getElem?_eq_none (by simp; omega), List.getElem?_eq_none (by omega)]
    · simp only [Storage.pages, own, medium, List.length_append, List.length_singleton]
  | file name =>
    simp only
    intro changed
    have count : (s.pageCount v).toNat = s.pages v := by
      rw [pageCountPages, UInt32.toNat_ofNat']
      exact Nat.mod_eq_of_lt few
    have number : s.pages v = (s.directory.bytes name).length / s.pageSize v := by
      simp only [Storage.pages, medium, Directory.bytes, Content.bytesLength]
    have start : s.pages v * s.pageSize v ≤ (s.directory.bytes name).length := by
      rw [number]
      exact Nat.div_mul_le_self _ _
    have short : (s.directory.bytes name).length < s.pages v * s.pageSize v + s.pageSize v := by
      rw [number, Nat.mul_comm]
      exact Nat.lt_mul_div_succ _ positive
    have longer : ((s.directory.content name).splice (s.pages v * s.pageSize v) image).size =
        (s.pages v + 1) * s.pageSize v := by
      rw [← Content.bytesLength, Content.bytesSplice, ← Directory.bytes, Bytes.spliceSize start,
        whole, Nat.succ_mul]
      exact Nat.max_eq_right (Nat.le_of_lt short)
    rw [count] at changed ⊢
    refine ⟨changed, fun n => ?_, ?_⟩
    · have slices := Bytes.pageSplice start whole n
      simp only [page?, pageSize, volume] at slices medium whole ⊢
      simp only [medium, Directory.bytesPut, if_true, Content.bytesSplice,
        show (s.directory.content name).bytes = s.directory.bytes name from rfl, slices]
      by_cases here : n = s.pages v
      · simp [here, whole]
      · simp [here]
    · simp only [Storage.pages, pageSize, volume] at medium positive longer ⊢
      simp only [medium, Directory.contentPut, if_true] at longer ⊢
      rw [longer, Nat.mul_div_cancel _ positive]

end Storage
end PagedHeap
