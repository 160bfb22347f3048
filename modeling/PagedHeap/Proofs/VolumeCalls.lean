import PagedHeap.HeapFile
import PagedHeap.Proofs.Volumes

/-! What each call of a volume and of a heap file ends in. A call that fails has only
used up what was laid up for it, and a call for which nothing is laid up fails for no
reason of its own. -/
namespace PagedHeap

theorem Verdict.takeSource {point : FaultPoint} {verdicts left : List Verdict}
    {cause : Option IoError} (h : take point verdicts = some (cause, left)) :
    (∀ x ∈ left, x ∈ verdicts) ∧ ∃ x ∈ verdicts, x.point = point ∧ x.cause = cause := by
  induction verdicts generalizing cause left with
  | nil => cases h
  | cons v rest ih =>
    simp only [take] at h
    split at h
    · rename_i here
      cases h
      exact ⟨fun x there => List.mem_cons_of_mem _ there, v, List.mem_cons_self, here, rfl⟩
    · obtain ⟨⟨found, behind⟩, taken, same⟩ := Option.map_eq_some_iff.mp h
      cases same
      obtain ⟨kept, x, there, facts⟩ := ih taken
      refine ⟨fun y inside => ?_, x, List.mem_cons_of_mem _ there, facts⟩
      rcases List.mem_cons.mp inside with rfl | inside
      · exact List.mem_cons_self
      · exact List.mem_cons_of_mem _ (kept y inside)

theorem Fault.takeSource {point : FaultPoint} {page : Option UInt32} {script left : List Fault}
    {cause : IoError} (h : take point page script = some (cause, left)) :
    (∀ g ∈ left, ∃ f ∈ script, f.point = g.point) ∧ ∃ f ∈ script, f.point = point := by
  induction script generalizing cause left with
  | nil => cases h
  | cons f rest ih =>
    simp only [take] at h
    split at h
    · rename_i here
      cases h
      simp only [meets, Bool.and_eq_true, decide_eq_true_eq] at here
      refine ⟨fun g inside => ?_, f, List.mem_cons_self, here.1.1⟩
      rcases List.mem_cons.mp inside with rfl | inside
      · exact ⟨f, List.mem_cons_self, rfl⟩
      · exact ⟨g, List.mem_cons_of_mem _ inside, rfl⟩
    · obtain ⟨⟨found, behind⟩, taken, same⟩ := Option.map_eq_some_iff.mp h
      cases same
      obtain ⟨kept, g, there, point⟩ := ih taken
      refine ⟨fun x inside => ?_, g, List.mem_cons_of_mem _ there, point⟩
      rcases List.mem_cons.mp inside with rfl | inside
      · exact ⟨x, List.mem_cons_self, rfl⟩
      · obtain ⟨y, before, same⟩ := kept x inside
        exact ⟨y, List.mem_cons_of_mem _ before, same⟩

namespace Storage

theorem observedUpdate {s : Storage} {v : VolumeId} {change : Volume → Volume}
    (size : ∀ x, (change x).pageSize = x.pageSize) (medium : ∀ x, (change x).medium = x.medium)
    (verdicts : ∀ x ∈ (change (s.volume v)).verdicts, x ∈ (s.volume v).verdicts)
    (script : ∀ g ∈ (change (s.volume v)).script, ∃ f ∈ (s.volume v).script, f.point = g.point) :
    Observed s (s.update v change) := by
  refine ⟨sameUpdate s v size medium, fun w point spared => ?_⟩
  simp only [Spares, volumeUpdate]
  split
  · rename_i own
    obtain ⟨rfl, _⟩ := own
    refine ⟨fun x there => spared.1 x (verdicts x there), fun g there => ?_⟩
    obtain ⟨f, before, same⟩ := script g there
    exact same ▸ spared.2 f before
  · exact spared

theorem logEnds (s : Storage) (v : VolumeId) (call : Call) :
    Ends (fun _ t => Observed s t) (fun _ => False) (log v call s) :=
  observedUpdate (fun _ => rfl) (fun _ => rfl) (fun _ there => there)
    (fun g there => ⟨g, there, rfl⟩)

theorem metEnds (s : Storage) (v : VolumeId) (point : FaultPoint) (page : Option UInt32) :
    Ends (fun cause t => Observed s t ∧ (s.Spares v point → cause = none)) (fun _ => False)
      (met v point page s) := by
  unfold met
  split
  · rename_i cause left taken
    obtain ⟨kept, x, there, here, same⟩ := Verdict.takeSource taken
    refine ⟨observedUpdate (fun _ => rfl) (fun _ => rfl) kept (fun g inside => ⟨g, inside, rfl⟩),
      fun spared => ?_⟩
    rw [← same]
    exact spared.1 x there here
  · split
    · exact ⟨.refl s, fun _ => rfl⟩
    · rename_i cause left taken
      obtain ⟨kept, f, there, here⟩ := Fault.takeSource taken
      exact ⟨observedUpdate (fun _ => rfl) (fun _ => rfl) (fun _ inside => inside) kept,
        fun spared => absurd here (spared.2 f there)⟩

theorem passEnds (s : Storage) (v : VolumeId) (point : FaultPoint) (page : Option UInt32) :
    Ends (fun _ t => Observed s t) (fun t => Observed s t ∧ ¬ s.Spares v point)
      (pass v point page s) := by
  refine (metEnds s v point page).andThen (fun cause t met => ?_) (fun _ none => none.elim)
  cases cause with
  | none => exact met.1
  | some cause => exact ⟨met.1, fun spared => nomatch met.2 spared⟩

theorem countEnds (s : Storage) (v : VolumeId) :
    Ends (fun n t => Observed s t ∧ n = .ofNat (s.pages v))
      (fun t => Observed s t ∧ ¬ s.Spares v .count) (count v s) := by
  refine (passEnds s v .count none).andThen (fun _ t passed => ⟨passed, ?_⟩)
    (fun _ failed => failed)
  exact (pageCountPages t v).trans (congrArg UInt32.ofNat (passed.pages v))

theorem readEnds (s : Storage) (v : VolumeId) (page : UInt32) (length : Nat) :
    Ends (fun image t => Observed s t ∧ s.page? v page.toNat = some image ∧ length = s.pageSize v)
      (Observed s) (read v page length s) := by
  refine (logEnds s v (.read page)).andThen (fun _ a logged => ?_) (fun _ none => none.elim)
  refine (passEnds a v .read (some page)).andThen (fun _ b passed => ?_)
    (fun _ failed => logged.trans failed.1)
  have seen := logged.trans passed
  have fits : Ends (fun _ t => t = b ∧ length = b.pageSize v) (Observed s)
      (demand Storage (b.checkLength v length) b) := by
    refine Ends.demand (fun _ checked => ⟨rfl, ?_⟩) seen
    unfold checkLength at checked
    split at checked
    · assumption
    · cases checked
  refine fits.andThen (fun _ t here => ?_) (fun _ failed => failed)
  obtain ⟨rfl, equal⟩ := here
  refine Ends.served (fun image found => ⟨seen, ?_, equal.trans (seen.size v)⟩) seen
  rw [← seen.page?]
  exact imageIff.mp found

/- Changes that follow a look. -/

theorem Observed.changed {s m t : Storage} {v : VolumeId} (seen : Observed s m)
    (h : ChangedAt m t v) : ChangedAt s t v := by
  refine ⟨seen.follows.trans h.toFollows, fun w apart => ?_⟩
  obtain ⟨pages, count⟩ := h.others w (seen.follows.apart apart)
  exact ⟨fun n => (pages n).trans (seen.page? w n), count.trans (seen.pages w)⟩

theorem Observed.stored {s m t : Storage} {v : VolumeId} {page : UInt32} {image : Bytes}
    (seen : Observed s m) (h : Stored m t v page image) : Stored s t v page image :=
  ⟨seen.changed h.toChangedAt, fun n => by rw [h.page, seen.page?], h.pages.trans (seen.pages v)⟩

theorem Observed.extended {s m t : Storage} {v : VolumeId} {image : Bytes}
    (seen : Observed s m) (h : Extended m t v image) : Extended s t v image :=
  ⟨seen.changed h.toChangedAt, fun n => by rw [h.page, seen.page?, seen.pages],
    by rw [h.pages, seen.pages]⟩

theorem ChangedAt.observed {s m t : Storage} {v : VolumeId} (h : ChangedAt s m v)
    (seen : Observed m t) : ChangedAt s t v := by
  refine ⟨h.toFollows.trans seen.follows, fun w apart => ?_⟩
  obtain ⟨pages, count⟩ := h.others w apart
  exact ⟨fun n => (seen.page? w n).trans (pages n), (seen.pages w).trans count⟩

theorem Extended.observed {s m t : Storage} {v : VolumeId} {image : Bytes}
    (h : Extended s m v image) (seen : Observed m t) : Extended s t v image :=
  ⟨h.toChangedAt.observed seen, fun n => by rw [seen.page?, h.page], by rw [seen.pages, h.pages]⟩

def Writable (s : Storage) (v : VolumeId) (page : UInt32) (image : Bytes) : Prop :=
  page.toNat < s.pages v ∧ image.length = s.pageSize v

theorem storeFits {s : Storage} {v : VolumeId} {page : UInt32} (image : Bytes)
    (inside : page.toNat < s.pages v) : ∃ t, s.store v page image = .ok t := by
  unfold store
  cases medium : (s.volume v).medium with
  | memory pages =>
    simp only [Storage.pages, medium] at inside ⊢
    rw [if_pos inside]
    exact ⟨_, rfl⟩
  | file name =>
    have room := fileRoom medium inside
    simp only [Directory.reachesInside (Nat.le_of_add_right_le room), if_true]
    exact ⟨_, rfl⟩

theorem SameContent.stored {s t u : Storage} {v : VolumeId} {page : UInt32} {image : Bytes}
    (same : SameContent s t) (stored : t.store v page image = .ok u) :
    ∃ w, s.store v page image = .ok w ∧ SameContent w u := by
  unfold store at stored ⊢
  rw [same.medium] at stored
  cases medium : (s.volume v).medium with
  | memory pages =>
    simp only [medium] at stored ⊢
    split at stored
    · rename_i inside
      cases stored
      rw [if_pos inside]
      have here : v < s.volumes.length :=
        volumeInside (by rw [Storage.pages, medium]; exact inside)
      have there : v < t.volumes.length :=
        volumeInside (by rw [Storage.pages, same.medium, medium]; exact inside)
      refine ⟨_, rfl, same.directory, fun w => ?_, fun w => ?_⟩ <;>
        (simp only [volumeUpdate]; by_cases own : v = w)
      · subst own
        simpa only [here, there, and_self, if_true] using same.size v
      · simpa only [own, false_and, if_false] using same.size w
      · subst own
        simp only [here, there, and_self, if_true]
      · simpa only [own, false_and, if_false] using same.medium w
    · cases stored
  | file name =>
    have size : t.pageSize v = s.pageSize v := same.size v
    simp only [medium, size, same.directory] at stored ⊢
    split at stored
    · rename_i reached
      cases stored
      rw [if_pos reached]
      exact ⟨_, rfl, rfl, same.size, same.medium⟩
    · cases stored

theorem writeEnds {s : Storage} {v : VolumeId} {page : UInt32} {image : Bytes}
    (writable : s.Writable v page image) :
    Ends (fun _ t => Stored s t v page image ∧
        ∃ w, s.store v page image = .ok w ∧ SameContent w t)
      (fun t => Observed s t ∧ ¬ s.Spares v .write) (write v page image s) := by
  refine (logEnds s v (.write page)).andThen (fun _ a logged => ?_) (fun _ none => none.elim)
  refine (passEnds a v .write (some page)).andThen (fun _ b passed => ?_)
    (fun _ failed => ⟨logged.trans failed.1, fun spared => failed.2 (logged.spares v _ spared)⟩)
  have seen := logged.trans passed
  have inside : page.toNat < b.pages v := seen.pages v ▸ writable.1
  have whole : image.length = b.pageSize v := writable.2.trans (seen.size v).symm
  obtain ⟨t, kept⟩ := storeFits image inside
  change Ends _ _ ((demand Storage (b.checkLength v image.length) >>= fun _ => get >>= fun c =>
    served Storage (c.store v page image) >>= set) b)
  rw [checkLength, if_pos whole]
  change Ends _ _ ((served Storage (b.store v page image) >>= set) b)
  rw [kept]
  exact ⟨seen.stored (stored inside whole kept), seen.toSameContent.stored kept⟩

structure Enlarged (s t : Storage) (v : VolumeId) : Prop extends ChangedAt s t v where
  fresh : 0 < s.pageSize v → s.pages v < UInt32.size →
    ∃ image, Extended s t v image ∧ (s.Spares v .fill → image = List.replicate (s.pageSize v) 0)

theorem allocateEnds (s : Storage) (v : VolumeId) :
    Ends (fun n t => n = .ofNat (s.pages v) ∧ Enlarged s t v) (Observed s) (allocate v s) := by
  refine (logEnds s v .allocate).andThen (fun _ a logged => ?_) (fun _ none => none.elim)
  refine (passEnds a v .allocate none).andThen (fun _ b passed => ?_)
    (fun _ failed => logged.trans failed.1)
  refine (metEnds b v .fill none).andThen (fun cause c met => ?_) (fun _ none => none.elim)
  have before := logged.trans passed
  have seen := before.trans met.1
  change (c.extend v (List.replicate (c.pageSize v) (if cause.isSome then 255 else 0))).1 = _ ∧
    Enlarged s (c.extend v (List.replicate (c.pageSize v) (if cause.isSome then 255 else 0))).2 v
  have size : c.pageSize v = s.pageSize v := seen.size v
  have number : ∀ image, (c.extend v image).1 = .ofNat (s.pages v) := by
    intro image
    rw [← seen.pages, ← pageCountPages]
    unfold extend
    cases (c.volume v).medium <;> rfl
  refine ⟨number _, seen.changed extendChanged, fun positive few => ⟨_, seen.extended
    (extended (size ▸ positive) List.length_replicate (seen.pages v ▸ few)), ?_⟩⟩
  intro spared
  rw [met.2 (before.spares v .fill spared)]
  exact congrArg (List.replicate · 0) size

end Storage

namespace HeapFile

structure Copied (f : HeapFile) (s : Storage) (id : PageId) (page : Page) : Prop where
  own : id.table = f.table
  key : page.id = id
  layout : page.layout = f.layout
  clean : page.dirtiedBy = none
  image : s.page? f.volume id.number.toNat = some page.image

theorem readEnds (f : HeapFile) (s : Storage) (id : PageId) :
    Ends (fun page t => Storage.Observed s t ∧ f.Copied s id page) (Storage.Observed s)
      (f.readPage id s) := by
  have checked : Ends (fun _ t => t = s ∧ id.table = f.table) (Storage.Observed s)
      (demand Storage (f.checkTable id) s) := by
    refine Ends.demand (fun _ checked => ⟨rfl, ?_⟩) (.refl s)
    unfold checkTable at checked
    split at checked
    · assumption
    · cases checked
  refine checked.andThen (fun _ a here => ?_) (fun _ failed => failed)
  obtain ⟨rfl, own⟩ := here
  refine (Storage.readEnds a f.volume id.number f.layout.pageSize).andThen
    (fun image t found => ?_) (fun _ failed => failed)
  refine Ends.demand (fun page made => ⟨found.1, ?_⟩) found.1
  unfold Page.ofImage at made
  split at made
  · cases made
    exact ⟨own, rfl, rfl, rfl, found.2.1⟩
  · cases made

theorem writeEnds {f : HeapFile} {s : Storage} {page : Page} (own : page.id.table = f.table)
    (writable : s.Writable f.volume page.id.number page.image) :
    Ends (fun _ t => Storage.Stored s t f.volume page.id.number page.image ∧
        ∃ w, s.store f.volume page.id.number page.image = .ok w ∧ w.SameContent t)
      (fun t => Storage.Observed s t ∧ ¬ s.Spares f.volume .write) (f.writePage page s) := by
  change Ends _ _ ((demand Storage (f.checkTable page.id) >>= fun _ =>
    Storage.write f.volume page.id.number page.image) s)
  rw [checkTable, if_pos own]
  exact Storage.writeEnds writable

theorem allocateEnds (f : HeapFile) (s : Storage) :
    Ends (fun id t => id = ⟨f.table, .ofNat (s.pages f.volume)⟩ ∧ Storage.Enlarged s t f.volume)
      (Storage.Observed s) (f.allocate s) := by
  refine (Storage.allocateEnds s f.volume).andThen (fun n t made => ?_) (fun _ failed => failed)
  exact ⟨congrArg (PageId.mk f.table) made.1, made.2⟩

end HeapFile
end PagedHeap
