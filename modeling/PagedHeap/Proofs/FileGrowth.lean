import PagedHeap.Proofs.VolumeCalls

/-! How a file grows. Pages have numbers of 32 bits, and so many pages a file takes one behind the
other. Where the numbers have run out, the next page is put over one that is there. -/
namespace PagedHeap

theorem Bytes.spliceAtEnd {image data : Bytes} {offset : Nat} (atEnd : offset = image.length) :
    splice image offset data = image ++ data := by
  subst atEnd
  simp [splice]

namespace Storage

/- A blank page stands behind all that the file held, under the number it was told. -/
structure Appends (s t : Storage) (v : VolumeId) (file : String) (page : UInt32) : Prop where
  number : page.toNat = (s.directory.bytes file).length / s.pageSize v
  bytes : t.directory.bytes file = s.directory.bytes file ++ List.replicate (s.pageSize v) 0

/- A page that the file held is blank now, and the file is no longer than it was. -/
structure Blanks (s t : Storage) (v : VolumeId) (file : String) (page : UInt32) : Prop where
  inside : (page.toNat + 1) * s.pageSize v ≤ (s.directory.bytes file).length
  length : (t.directory.bytes file).length = (s.directory.bytes file).length
  blank : Bytes.slice (t.directory.bytes file) (page.toNat * s.pageSize v) (s.pageSize v) =
    List.replicate (s.pageSize v) 0
  others : ∀ i, i < page.toNat * s.pageSize v ∨ (page.toNat + 1) * s.pageSize v ≤ i →
    (t.directory.bytes file)[i]? = (s.directory.bytes file)[i]?

variable {s t : Storage} {v : VolumeId} {file : String}

/- The blank page is put where the page of the counted number starts. -/
structure Spliced (s t : Storage) (v : VolumeId) (file : String) : Prop where
  own : t.directory.bytes file = Bytes.splice (s.directory.bytes file)
    ((s.pageCount v).toNat * s.pageSize v) (List.replicate (s.pageSize v) 0)
  others : ∀ other, other ≠ file → t.directory.bytes other = s.directory.bytes other

theorem extendSplices (medium : (s.volume v).medium = .file file) :
    (s.extend v (List.replicate (s.pageSize v) 0)).1 = s.pageCount v ∧
      Spliced s (s.extend v (List.replicate (s.pageSize v) 0)).2 v file := by
  unfold extend
  rw [medium]
  refine ⟨rfl, ?_, fun other apart => ?_⟩
  · simp only [Directory.bytesPut, if_true, Content.bytesSplice]
    rfl
  · simp only [Directory.bytesPut, if_neg apart.symm]

theorem Observed.spliced {m : Storage} (seen : Observed s m) (h : Spliced m t v file) :
    Spliced s t v file := by
  obtain ⟨own, others⟩ := h
  rw [seen.pageCount, seen.directory, show m.pageSize v = s.pageSize v from seen.size v] at own
  exact ⟨own, fun other apart => (others other apart).trans (by rw [seen.directory])⟩

theorem allocateSplices (medium : (s.volume v).medium = .file file)
    (working : s.Spares v .allocate) (blank : s.Spares v .fill) :
    ∃ t, allocate v s = .ok (s.pageCount v) t ∧ Spliced s t v file := by
  have ends : Ends (fun n t => n = s.pageCount v ∧ Spliced s t v file) (fun _ => False)
      (allocate v s) := by
    refine (logEnds s v .allocate).andThen (fun _ a logged => ?_) (fun _ none => none)
    refine (passEnds a v .allocate none).andThen (fun _ b passed => ?_)
      (fun _ failed => failed.2 (logged.spares v .allocate working))
    refine (metEnds b v .fill none).andThen (fun cause c met => ?_) (fun _ none => none)
    have before := logged.trans passed
    have seen := before.trans met.1
    have sparing := met.2 (before.spares v .fill blank)
    subst sparing
    obtain ⟨number, spliced⟩ := extendSplices ((seen.medium v).trans medium)
    exact ⟨number.trans (seen.pageCount v), seen.spliced spliced⟩
  obtain ⟨page, t, made, rfl, spliced⟩ := ends.sure
  exact ⟨t, made, spliced⟩

theorem countedPages (medium : (s.volume v).medium = .file file) :
    (s.pageCount v).toNat =
      (s.directory.bytes file).length / s.pageSize v % UInt32.size := by
  rw [pageCountPages, UInt32.toNat_ofNat', Storage.pages, medium]
  simp only [Directory.bytes, Content.bytesLength]

theorem Spliced.appends (spliced : Spliced s t v file)
    (whole : (s.directory.bytes file).length % s.pageSize v = 0)
    (number : (s.pageCount v).toNat = (s.directory.bytes file).length / s.pageSize v) :
    Appends s t v file (s.pageCount v) := by
  refine ⟨number, spliced.own.trans (Bytes.spliceAtEnd ?_)⟩
  rw [number]
  exact Nat.div_mul_cancel (Nat.dvd_of_mod_eq_zero whole)

theorem Spliced.blanks (spliced : Spliced s t v file)
    (number : (s.pageCount v).toNat < (s.directory.bytes file).length / s.pageSize v) :
    Blanks s t v file (s.pageCount v) := by
  have room : ((s.pageCount v).toNat + 1) * s.pageSize v ≤ (s.directory.bytes file).length :=
    Nat.le_trans (Nat.mul_le_mul_right _ number) (Nat.div_mul_le_self ..)
  have next := Nat.add_one_mul (s.pageCount v).toNat (s.pageSize v)
  have start : (s.pageCount v).toNat * s.pageSize v ≤ (s.directory.bytes file).length := by omega
  refine ⟨room, ?_, ?_, fun i away => ?_⟩
  · rw [spliced.own, Bytes.spliceSize start, List.length_replicate]
    omega
  · rw [spliced.own, Bytes.pageSplice start List.length_replicate, if_pos rfl]
  · rw [spliced.own]
    refine Bytes.spliceElsewhere start (away.imp_right fun behind => ?_)
    rw [List.length_replicate]
    omega

/-- A file grows by a blank page, and keeps all it held, exactly as long as there is a number for
the page. With all numbers in use, a page of it is blanked instead. -/
theorem growsWhileNumbered (medium : (s.volume v).medium = .file file)
    (whole : (s.directory.bytes file).length % s.pageSize v = 0)
    (working : s.Spares v .allocate) (blank : s.Spares v .fill) :
    ∃ page t, allocate v s = .ok page t ∧ page = s.pageCount v ∧
      page.toNat = (s.directory.bytes file).length / s.pageSize v % UInt32.size ∧
      (Appends s t v file page ↔ (s.directory.bytes file).length / s.pageSize v < UInt32.size) ∧
      (UInt32.size ≤ (s.directory.bytes file).length / s.pageSize v → Blanks s t v file page) ∧
      ∀ other, other ≠ file → t.directory.bytes other = s.directory.bytes other := by
  obtain ⟨t, made, spliced⟩ := allocateSplices medium working blank
  have number := countedPages medium
  have word : (s.pageCount v).toNat < UInt32.size := UInt32.toNat_lt_size _
  refine ⟨_, t, made, rfl, number, ⟨fun grown => grown.number ▸ word, fun few => ?_⟩,
    fun many => ?_, spliced.others⟩
  · exact spliced.appends whole (number.trans (Nat.mod_eq_of_lt few))
  · exact spliced.blanks (Nat.lt_of_lt_of_le word many)

def twoPages : Storage :=
  ⟨(Directory.empty "").put "d" [⟨4, 7⟩], [⟨2, .file "d", [], [], []⟩]⟩

theorem sampleGrows : twoPages.directory.bytes "d" = [7, 7, 7, 7] ∧
    ∃ t, allocate 0 twoPages = .ok 2 t ∧ Appends twoPages t 0 "d" 2 := by
  have spares : ∀ point, twoPages.Spares 0 point := by simp [Spares, twoPages, volume]
  have medium : (twoPages.volume 0).medium = .file "d" := rfl
  refine ⟨rfl, ?_⟩
  obtain ⟨page, t, made, rfl, -, grown, -⟩ :=
    growsWhileNumbered medium (by decide) (spares .allocate) (spares .fill)
  exact ⟨t, made, grown.mpr (by decide)⟩

/- As many pages of one byte as there are numbers. -/
def crowdedFile : Storage :=
  ⟨(Directory.empty "").put "d" [⟨1, 7⟩, ⟨4294967295, 9⟩], [⟨1, .file "d", [], [], []⟩]⟩

/- The file does not grow, and its first page is lost. -/
theorem crowdedOverwrites :
    crowdedFile.Spares 0 .allocate ∧ crowdedFile.Spares 0 .fill ∧
    (crowdedFile.directory.bytes "d").length = UInt32.size ∧
    (crowdedFile.directory.bytes "d")[0]? = some 7 ∧
    ∃ t, allocate 0 crowdedFile = .ok 0 t ∧ ¬ Appends crowdedFile t 0 "d" 0 ∧
      (t.directory.bytes "d").length = UInt32.size ∧ (t.directory.bytes "d")[0]? = some 0 := by
  have spares : ∀ point, crowdedFile.Spares 0 point := by simp [Spares, crowdedFile, volume]
  have medium : (crowdedFile.volume 0).medium = .file "d" := rfl
  have length : (crowdedFile.directory.bytes "d").length = UInt32.size :=
    Content.bytesLength [⟨1, 7⟩, ⟨4294967295, 9⟩]
  obtain ⟨t, made, spliced⟩ := allocateSplices medium (spares .allocate) (spares .fill)
  have first : crowdedFile.pageCount 0 = 0 := rfl
  rw [first] at made
  have full : (crowdedFile.directory.bytes "d").length / crowdedFile.pageSize 0 = UInt32.size := by
    rw [length]
    rfl
  have blanks : Blanks crowdedFile t 0 "d" 0 := first ▸ spliced.blanks (first ▸ full ▸ by decide)
  refine ⟨spares .allocate, spares .fill, length, rfl, t, made, fun grown => ?_,
    blanks.length.trans length, ?_⟩
  · have number := grown.number
    rw [full] at number
    cases number
  · have blank : Bytes.slice (t.directory.bytes "d") 0 1 = [0] := blanks.blank
    have first : (Bytes.slice (t.directory.bytes "d") 0 1)[0]? = some 0 := blank ▸ rfl
    simpa [Bytes.slice, List.getElem?_take] using first

/- As many blank pages of any size as there are numbers. Counted in words they are none. -/
def crowded (pageSize : Nat) : Storage :=
  ⟨(Directory.empty "").put "t" [⟨UInt32.size * pageSize, 0⟩],
    [⟨pageSize, .file "t", [], [], []⟩]⟩

end Storage
end PagedHeap
