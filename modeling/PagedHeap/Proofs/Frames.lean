import PagedHeap.Proofs.Guards

/-! Copies of pages, in the cache and outside. Whoever has locked a page and looks at a copy of
it sees what is to be seen of the page, even when the copy leaves the cache, until he changes the
page in another copy that has come in its stead. -/
namespace PagedHeap

/- A transaction keeps its lock on the page, and the page is neither dropped nor written back. -/
def Act.heeds (txn : TxnId) (home : PageId) (act : Act) : Prop :=
  ¬ act.unlocks txn home ∧ match act with
    | .forget page | .save page => page ≠ home
    | _ => True

theorem Act.readsHeeds {who : Option TxnId} {txn : TxnId} {home : PageId} {act : Act}
    (h : act.reads who) : act.heeds txn home := by
  cases act <;> first | exact h.elim | exact ⟨id, trivial⟩

theorem Act.looksHeeds {txn : TxnId} {home : PageId} {act : Act} (h : act.looks) :
    act.heeds txn home := by
  cases act <;> first | exact h.elim | exact ⟨id, trivial⟩

namespace Pool

variable {p q : Pool} {act : Act} {txn : TxnId} {frame : Frame} {page : PageId}

/- Names of frames. -/

@[simp] theorem dropNextFrame (p : Pool) (page : PageId) :
    (p.drop page).nextFrame = p.nextFrame := by
  unfold drop
  split <;> rfl

/- Names that are still to come are nobody's, and no two frames of the cache have the same. -/
structure Labelled (p : Pool) : Prop where
  old : ∀ page frame, p.resident.get? page = some frame → frame.id < p.nextFrame
  own : ∀ page other frame held, p.resident.get? page = some frame →
    p.resident.get? other = some held → frame.id = held.id → page = other

theorem Move.nextFrame (move : Move act p q) : p.nextFrame ≤ q.nextFrame := by
  cases move with
  | load => exact Nat.le_succ _
  | evict | forget => exact Nat.le_of_eq (dropNextFrame ..).symm
  | _ => exact Nat.le_refl _

theorem Move.frameSource (move : Move act p q) (present : q.resident.get? page = some frame) :
    (∃ before, p.resident.get? page = some before ∧ before.id = frame.id) ∨
      act = .load page ∧ frame.id = p.nextFrame ∧ q.nextFrame = p.nextFrame + 1 := by
  cases move with
  | load =>
    rw [KeyMap.getInsert] at present
    split at present
    · rename_i same
      cases present
      exact .inr ⟨same ▸ rfl, rfl, rfl⟩
    · exact .inl ⟨frame, present, rfl⟩
  | evict | forget =>
    rw [residentDrop] at present
    split at present
    · cases present
    · exact .inl ⟨frame, present, rfl⟩
  | @save _ _ _ held _ there | @fill _ _ _ _ held _ _ there | @clear _ _ _ held _ _ there =>
    rw [KeyMap.getInsert] at present
    split at present
    · rename_i same
      cases present
      exact .inl ⟨held, same ▸ there, rfl⟩
    · exact .inl ⟨frame, present, rfl⟩
  | _ => exact .inl ⟨frame, present, rfl⟩

theorem Labelled.move (labelled : p.Labelled) (move : Move act p q) : q.Labelled where
  old page frame present := by
    rcases move.frameSource present with ⟨before, there, same⟩ | ⟨_, new, more⟩
    · exact same ▸ Nat.lt_of_lt_of_le (labelled.old page before there) move.nextFrame
    · rw [new, more]
      exact Nat.lt_succ_self _
  own page other frame held present there same := by
    rcases move.frameSource present with ⟨left, before, mine⟩ | ⟨loaded, mine, _⟩ <;>
      rcases move.frameSource there with ⟨right, after, its⟩ | ⟨loaded', its, _⟩
    · exact labelled.own page other left right before after (mine.trans (same.trans its.symm))
    · exact absurd (mine.trans (same.trans its)) (Nat.ne_of_lt (labelled.old page left before))
    · exact absurd (its.trans (same.symm.trans mine))
        (Nat.ne_of_lt (labelled.old other right after))
    · cases loaded.symm.trans loaded'
      rfl

structure Tidy (p : Pool) : Prop extends Sound p where
  coherent : p.locks.Coherent
  labelled : p.Labelled

theorem Tidy.move (tidy : p.Tidy) (move : Move act p q) : q.Tidy :=
  ⟨tidy.toSound.move move, move.coherent tidy.coherent, tidy.labelled.move move⟩

theorem Tidy.moves {kind : Act → Prop} (tidy : p.Tidy) (moves : Moves kind p q) : q.Tidy :=
  moves.within (fun p q => p.Tidy → q.Tidy) (fun _ same => same)
    (fun _ _ _ first second same => second (first same)) (fun _ _ _ _ move same => same.move move)
    tidy

/- What a frame holds. -/

theorem latestSame (gone : q.gone = p.gone)
    (resident : q.resident.get? frame.page.id = p.resident.get? frame.page.id) :
    q.latest frame = p.latest frame := by
  simp only [latest, gone, resident]

theorem latestResident {held : Frame} (present : p.resident.get? frame.page.id = some held)
    (same : held.id = frame.id) : p.latest frame = held.page := by
  simp only [latest, present, same, if_true]

theorem latestDrop (lone : ∀ page other, p.resident.get? page = some other →
    other.id = frame.id → page = frame.page.id) (page : PageId) :
    (p.drop page).latest frame = p.latest frame := by
  unfold drop
  cases present : p.resident.get? page with
  | none => rfl
  | some other =>
    by_cases same : other.id = frame.id
    · obtain rfl := lone page other present same
      rw [latestResident present same]
      simp only [latest, KeyMap.getErase, if_true, List.find?_cons, same, decide_true,
        Option.getD_some]
    · have skipped :
          (other :: p.gone).find? (·.id = frame.id) = p.gone.find? (·.id = frame.id) := by
        simp only [List.find?_cons, same, decide_false]
      by_cases own : page = frame.page.id
      · subst own
        simp only [latest, KeyMap.getErase, if_true, skipped, present, if_neg same]
      · simp only [latest, KeyMap.getErase, if_neg own, skipped]

theorem latestLoad (old : frame.id < p.nextFrame) (absent : p.resident.get? page = none)
    (copy : Page) : Pool.latest {p with
      resident := p.resident.insert page ⟨p.nextFrame, copy⟩
      nextFrame := p.nextFrame + 1} frame = p.latest frame := by
  by_cases own : page = frame.page.id
  · subst own
    have another : p.nextFrame ≠ frame.id := fun same => Nat.ne_of_lt old same.symm
    simp only [latest, KeyMap.getInsert, if_true, absent, if_neg another]
  · exact latestSame rfl ((KeyMap.getInsert ..).trans (if_neg own))

theorem latestPut {held : Frame} {copy : Page} (present : p.resident.get? page = some held)
    (gone : q.gone = p.gone) (put : q.resident = p.resident.insert page ⟨held.id, copy⟩) :
    q.latest frame = p.latest frame ∨ p.latest frame = held.page ∧
      q.resident.get? frame.page.id = some ⟨held.id, copy⟩ ∧ held.id = frame.id := by
  have there := congrArg (·.get? frame.page.id) put
  rw [KeyMap.getInsert] at there
  by_cases own : page = frame.page.id
  · subst own
    rw [if_pos rfl] at there
    by_cases same : held.id = frame.id
    · exact .inr ⟨latestResident present same, there, same⟩
    · exact .inl (by simp only [latest, there, present, if_neg same, gone])
  · rw [if_neg own] at there
    exact .inl (latestSame gone there)

/- Somebody keeps a frame, whether or not it is still in the cache. -/
structure Tracks (p : Pool) (frame : Frame) : Prop where
  keeps : p.Keeps frame.page.id ⟨frame.id, p.latest frame⟩
  old : frame.id < p.nextFrame
  lone : ∀ page other, p.resident.get? page = some other → other.id = frame.id →
    page = frame.page.id

theorem Tidy.tracks (tidy : p.Tidy) (present : p.resident.get? page = some frame) :
    p.Tracks frame := by
  obtain ⟨_, _, rfl, _⟩ := tidy.keeps page frame present
  have keeps := tidy.keeps _ frame present
  refine ⟨?_, tidy.labelled.old _ _ present, fun other held there same => ?_⟩
  · rw [latestResident present rfl]
    exact keeps
  · exact tidy.labelled.own other _ held frame there present same

namespace Tracks

/- A frame holds what it has held, unless something is put into it while it is in the cache;
and if that is not a record, the mark is all that has changed. -/
theorem latest (tracks : p.Tracks frame) (move : Move act p q) :
    q.latest frame = p.latest frame ∨ ∃ held, q.resident.get? frame.page.id = some held ∧
      held.id = frame.id ∧ (act.calm → held.page = (p.latest frame).markClean) := by
  cases move with
  | load absent => exact .inl (latestLoad tracks.old absent _)
  | evict | forget => exact .inl (latestDrop tracks.lone _)
  | save present =>
    refine Or.imp id (fun put => ?_) (latestPut present rfl rfl)
    exact ⟨_, put.2.1, put.2.2, fun _ => by rw [put.1]⟩
  | fill _ present | clear _ present =>
    refine Or.imp id (fun put => ?_) (latestPut present rfl rfl)
    exact ⟨_, put.2.1, put.2.2, fun calm => calm.elim⟩
  | _ => exact .inl rfl

theorem move (tracks : p.Tracks frame) (housed : q.Housed) (move : Move act p q) :
    q.Tracks frame where
  keeps := by
    obtain same | ⟨held, there, same, _⟩ := tracks.latest move
    · exact same ▸ tracks.keeps.later move.grew
    · exact latestResident there same ▸ (housed.keeps _ held there).changed rfl rfl
  old := Nat.lt_of_lt_of_le tracks.old move.nextFrame
  lone page other present same := by
    rcases move.frameSource present with ⟨before, there, its⟩ | ⟨_, new, _⟩
    · exact tracks.lone page before there (its.trans same)
    · exact absurd (same.symm.trans new) (Nat.ne_of_lt tracks.old)

theorem calm (tracks : p.Tracks frame) (calm : act.calm) (move : Move act p q) (slot : Nat) :
    (q.latest frame).get? slot = (p.latest frame).get? slot := by
  obtain same | ⟨held, there, same, clean⟩ := tracks.latest move
  · rw [same]
  · rw [latestResident there same, clean calm]
    rfl

theorem calmMoves {kind : Act → Prop} (tracks : p.Tracks frame) (housed : p.Housed)
    (calm : ∀ act, kind act → act.calm) (moves : Moves kind p q) :
    q.Tracks frame ∧ ∀ slot, (q.latest frame).get? slot = (p.latest frame).get? slot :=
  (moves.within (fun p q => p.Housed → p.Tracks frame → q.Housed ∧ q.Tracks frame ∧
      ∀ slot, (q.latest frame).get? slot = (p.latest frame).get? slot)
    (fun _ housed tracks => ⟨housed, tracks, fun _ => rfl⟩)
    (fun _ _ _ first second housed tracks => by
      obtain ⟨between, kept, early⟩ := first housed tracks
      obtain ⟨after, kept, late⟩ := second between kept
      exact ⟨after, kept, fun slot => (late slot).trans (early slot)⟩)
    (fun act _ _ of move housed tracks =>
      ⟨housed.move move, tracks.move (housed.move move) move, tracks.calm (calm act of) move⟩)
    housed tracks).2

end Tracks

/- Another copy of its page is in the cache, and the transaction has changed that one. -/
def Overtaken (p : Pool) (txn : TxnId) (frame : Frame) : Prop :=
  ∃ other, p.resident.get? frame.page.id = some other ∧ other.id ≠ frame.id ∧
    other.page.dirtiedBy = some txn

structure TracksLocked (p : Pool) (txn : TxnId) (frame : Frame) : Prop extends Tracks p frame where
  locked : (p.locks.access? txn frame.page.id).isSome = true
  seen : ¬ p.Overtaken txn frame → p.Separate → p.Numbered frame.page.id.table →
    p.view? frame.page.id = some (p.latest frame).image

theorem Tidy.tracksLocked (tidy : p.Tidy) (present : p.resident.get? page = some frame)
    (locked : (p.locks.access? txn page).isSome = true) : p.TracksLocked txn frame := by
  have tracks := tidy.tracks present
  obtain ⟨_, _, rfl, _⟩ := tidy.keeps page frame present
  exact ⟨tracks, locked, fun _ _ _ => by rw [latestResident present rfl, viewResident present]⟩

namespace TracksLocked

theorem after (tracks : p.TracksLocked txn frame) (housed : q.Housed) (move : Move act p q)
    (still : ¬ act.unlocks txn frame.page.id)
    (seen : ¬ q.Overtaken txn frame → q.Separate → q.Numbered frame.page.id.table →
      q.view? frame.page.id = some (q.latest frame).image) : q.TracksLocked txn frame where
  toTracks := tracks.toTracks.move housed move
  locked := move.keepsLock still tracks.locked
  seen := seen

theorem apart (tracks : p.TracksLocked txn frame) (sound : p.Sound) (move : Move act p q)
    (still : ¬ act.unlocks txn frame.page.id) (leaves : act.leaves frame.page.id)
    (latest : q.latest frame = p.latest frame)
    (overtaken : p.Overtaken txn frame → q.Overtaken txn frame) : q.TracksLocked txn frame :=
  tracks.after (sound.toHoused.move move) move still fun level apart numbered =>
    latest ▸ sound.viewKept leaves move apart numbered
      (tracks.seen (fun before => level (overtaken before)) (apart.before move.grew)
        (numbered.before move.grew))

theorem put (tracks : p.TracksLocked txn frame) {held : Frame} {copy : Page} (move : Move act p q)
    (still : ¬ act.unlocks txn frame.page.id) (housed : q.Housed)
    (present : p.resident.get? frame.page.id = some held) (gone : q.gone = p.gone)
    (there : q.resident.get? frame.page.id = some ⟨held.id, copy⟩)
    (seen : held.id ≠ frame.id → ¬ q.Overtaken txn frame → q.Separate →
      q.Numbered frame.page.id.table → some copy.image = some (p.latest frame).image) :
    q.TracksLocked txn frame := by
  by_cases same : held.id = frame.id
  · have latest : q.latest frame = copy := latestResident there same
    exact tracks.after housed move still fun _ _ _ => latest ▸ viewResident there
  · have latest : q.latest frame = p.latest frame := by
      simp only [Pool.latest, there, present, if_neg same, gone]
    refine tracks.after housed move still fun level apart numbered => ?_
    rw [viewResident there, latest]
    exact seen same level apart numbered

theorem mine (tracks : p.TracksLocked txn frame) (coherent : p.locks.Coherent) {maker : TxnId}
    (owns : p.locks.access? maker frame.page.id = some .exclusive) : maker = txn := by
  refine Decidable.byContradiction fun other => ?_
  have locked := tracks.locked
  rw [coherent.alone owns fun same => other same.symm] at locked
  cases locked

theorem changed (tracks : p.TracksLocked txn frame) (housed : q.Housed) {held : Frame} {copy : Page}
    (move : Move act p q) (still : ¬ act.unlocks txn frame.page.id)
    (present : p.resident.get? frame.page.id = some held) (gone : q.gone = p.gone)
    (there : q.resident.get? frame.page.id = some ⟨held.id, copy.markDirty txn⟩) :
    q.TracksLocked txn frame :=
  tracks.put move still housed present gone there fun other level =>
    absurd ⟨_, there, other, rfl⟩ level

theorem move (tracks : p.TracksLocked txn frame) (tidy : p.Tidy)
    (heeds : act.heeds txn frame.page.id) (move : Move act p q) : q.TracksLocked txn frame := by
  obtain ⟨still, apart⟩ := heeds
  have there := tidy.toHoused.move move
  have elsewhere {other : PageId} (held : Frame) (away : other ≠ frame.page.id) :
      (p.resident.insert other held).get? frame.page.id = p.resident.get? frame.page.id := by
    rw [KeyMap.getInsert, if_neg away]
  have alike {q : Pool} (same : q.resident.get? frame.page.id = p.resident.get? frame.page.id) :
      p.Overtaken txn frame → q.Overtaken txn frame := by
    unfold Overtaken
    rw [same]
    exact id
  cases move with
  | aside seen => exact tracks.apart tidy.toSound (.aside seen) still trivial rfl id
  | extend found enlarged =>
    exact tracks.apart tidy.toSound (.extend found enlarged) still trivial rfl id
  | take granted => exact tracks.apart tidy.toSound (.take granted) still trivial rfl id
  | unprobe shared => exact tracks.apart tidy.toSound (.unprobe shared) still trivial rfl id
  | giveBack => exact tracks.apart tidy.toSound .giveBack still trivial rfl id
  | giveAll => exact tracks.apart tidy.toSound .giveAll still trivial rfl id
  | register fresh fits =>
    exact tracks.apart tidy.toSound (.register fresh fits) still trivial rfl id
  | @load _ page file copy absent space found copied =>
    have move := Move.load absent space found copied
    have latest := latestLoad tracks.old absent copy
    refine tracks.apart tidy.toSound move still trivial latest fun overtaken => ?_
    by_cases own : page = frame.page.id
    · obtain ⟨other, present, _⟩ := overtaken
      rw [← own, absent] at present
      cases present
    · exact alike (elsewhere _ own) overtaken
  | @evict _ page held present clean free =>
    have move := Move.evict present clean free
    refine tracks.apart tidy.toSound move still trivial (latestDrop tracks.lone page)
      fun before => ?_
    by_cases own : page = frame.page.id
    · obtain ⟨other, there, _, dirty⟩ := before
      rw [← own, present] at there
      cases there
      rw [clean] at dirty
      cases dirty
    · exact alike ((residentDrop ..).trans (if_neg own)) before
  | @forget _ page =>
    have same : (p.drop page).resident.get? frame.page.id = p.resident.get? frame.page.id := by
      rw [residentDrop, if_neg apart]
    exact tracks.apart tidy.toSound .forget still apart (latestDrop tracks.lone page) (alike same)
  | save present found stored =>
    exact tracks.apart tidy.toSound (.save present found stored) still trivial
      (latestSame rfl (elsewhere _ apart)) (alike (elsewhere _ apart))
  | @fill _ maker rid data held copy owns present filled =>
    have move := Move.fill owns present filled
    by_cases own : rid.page = frame.page.id
    · rw [own] at owns present
      obtain rfl := tracks.mine tidy.coherent owns
      exact tracks.changed there move still present rfl ((KeyMap.getInsert ..).trans (if_pos own))
    · exact tracks.apart tidy.toSound move still own (latestSame rfl (elsewhere _ own))
        (alike (elsewhere _ own))
  | @clear _ maker rid held copy owns present cleared =>
    have move := Move.clear owns present cleared
    by_cases own : rid.page = frame.page.id
    · rw [own] at owns present
      obtain rfl := tracks.mine tidy.coherent owns
      exact tracks.changed there move still present rfl ((KeyMap.getInsert ..).trans (if_pos own))
    · exact tracks.apart tidy.toSound move still own (latestSame rfl (elsewhere _ own))
        (alike (elsewhere _ own))

theorem moves {kind : Act → Prop} (tracks : p.TracksLocked txn frame) (tidy : p.Tidy)
    (heeds : ∀ act, kind act → act.heeds txn frame.page.id) (moves : Moves kind p q) :
    q.TracksLocked txn frame :=
  (moves.within (fun p q => p.Tidy ∧ p.TracksLocked txn frame → q.Tidy ∧ q.TracksLocked txn frame)
    (fun _ same => same) (fun _ _ _ first second same => second (first same))
    (fun act _ _ of move same =>
      ⟨same.1.move move, same.2.move same.1 (heeds act of) move⟩) ⟨tidy, tracks⟩).2

theorem save (tracks : p.TracksLocked txn frame) (tidy : p.Tidy) (level : ¬ p.Overtaken txn frame)
    (move : Move (.save page) p q) : q.TracksLocked txn frame ∧ ¬ q.Overtaken txn frame := by
  have there := tidy.toHoused.move move
  cases move with
  | @save _ _ file held storage present found stored =>
    have move := Move.save present found stored
    by_cases own : page = frame.page.id
    · subst own
      have mine : (p.resident.insert frame.page.id ⟨held.id, held.page.markClean⟩).get?
          frame.page.id = _ := (KeyMap.getInsert ..).trans (if_pos rfl)
      refine ⟨tracks.put move id there present rfl mine fun _ _ apart numbered => ?_, ?_⟩
      · exact (viewResident present).symm.trans
          (tracks.seen level (apart.before move.grew) (numbered.before move.grew))
      · rintro ⟨other, there, _, dirty⟩
        cases mine.symm.trans there
        cases dirty
    · refine ⟨tracks.move tidy ⟨id, own⟩ move, ?_⟩
      rintro ⟨other, there, overtaken⟩
      rw [KeyMap.getInsert, if_neg own] at there
      exact level ⟨other, there, overtaken⟩

theorem saves {pages : List PageId} (tracks : p.TracksLocked txn frame) (tidy : p.Tidy)
    (level : ¬ p.Overtaken txn frame) (moves : Moves (Act.saves pages) p q) :
    q.TracksLocked txn frame :=
  (moves.within (fun p q => p.Tidy ∧ p.TracksLocked txn frame ∧ ¬ p.Overtaken txn frame →
      q.Tidy ∧ q.TracksLocked txn frame ∧ ¬ q.Overtaken txn frame)
    (fun _ same => same) (fun _ _ _ first second same => second (first same))
    (fun act _ _ of move same => by
      obtain ⟨tidy, tracks, level⟩ := same
      have there := tidy.move move
      cases act with
      | save page => exact ⟨there, tracks.save tidy level move⟩
      | aside =>
        refine ⟨there, tracks.move tidy ⟨id, trivial⟩ move, ?_⟩
        cases move with
        | aside => exact level
      | _ => exact of.elim) ⟨tidy, tracks, level⟩).2.1

theorem notOwned (tracks : p.TracksLocked txn frame) (coherent : p.locks.Coherent) {maker : TxnId}
    (apart : maker ≠ txn) : frame.page.id ∉ p.locks.ownedBy maker := fun owned =>
  apart (tracks.mine coherent (coherent.memOwnedBy.mp owned))

end TracksLocked
end Pool
end PagedHeap
