import PagedHeap.Proofs.Completion
import PagedHeap.Proofs.PoolActivity
import PagedHeap.Proofs.Rows

/-! Pages under lock. Whoever marks a page has it to himself, so a page that somebody else has
locked is forgotten by nobody and changed by nobody, and it is read again as it was however
often it leaves the cache. Calls of the volumes may go wrong in any way. -/
namespace PagedHeap

/- What is seen of the page does not hang on the move. -/
def Act.leaves (page : PageId) : Act → Prop
  | .forget other => other ≠ page
  | .fill _ rid _ | .clear _ rid => rid.page ≠ page
  | _ => True

def Act.mild (who : Option TxnId) : Act → Prop
  | .save _ => True
  | act => act.seeks who

namespace Act

variable {who : Option TxnId} {pages : List PageId} {page : PageId} {act : Act}

theorem seeksMild (h : act.seeks who) : act.mild who := by
  cases act <;> first | exact h | trivial

theorem readsMild (h : act.reads who) : act.mild who := seeksMild (readsSeeks h)

theorem savesMild (h : act.saves pages) : act.mild who := by
  cases act <;> first | exact h.elim | trivial

theorem mildOrderly (h : act.mild who) : act.orderly := by
  cases act <;> first | exact h.elim | trivial

theorem mildLeaves (page : PageId) (h : act.mild who) : act.leaves page := by
  cases act <;> first | exact h.elim | trivial

theorem mildOwn (h : act.mild who) : act.byOwn who := by
  cases act <;> first | exact h | trivial

end Act

namespace Pool

variable {p q r : Pool} {act : Act} {page : PageId} {image : Bytes} {txn : TxnId}

/- Tables are on volumes of their own, and whoever has marked a page has it to himself. -/
structure Guarded (p : Pool) : Prop extends Sound p where
  apart : p.Separate
  coherent : p.locks.Coherent
  owned : ∀ page frame txn, p.resident.get? page = some frame →
    frame.page.dirtiedBy = some txn → p.locks.access? txn page = some .exclusive

namespace Guarded

theorem move (guarded : p.Guarded) (allowed : act.orderly) (move : Move act p q) : q.Guarded where
  toSound := guarded.toSound.move move
  apart := guarded.apart.move (Act.orderlyOld allowed) move
  coherent := move.coherent guarded.coherent
  owned := move.owned allowed guarded.owned

theorem moves {kind : Act → Prop} (guarded : p.Guarded)
    (allowed : ∀ act, kind act → act.orderly) (moves : Moves kind p q) : q.Guarded :=
  moves.within (fun p q => p.Guarded → q.Guarded) (fun _ same => same)
    (fun _ _ _ first second same => second (first same))
    (fun act _ _ of move same => same.move (allowed act of) move) guarded

theorem mild {who : Option TxnId} (guarded : p.Guarded) (moves : Moves (Act.mild who) p q) :
    q.Guarded := guarded.moves (fun _ => Act.mildOrderly) moves

theorem giveAll (guarded : p.Guarded) (clean : ∀ page ∈ p.locks.ownedBy txn, p.CleanAt page)
    (move : Move (.giveAll txn) p q) : q.Guarded := by
  have sound := guarded.toSound.move move
  have apart := guarded.apart.move (fun _ other => by cases other) move
  cases move with
  | giveAll =>
    exact ⟨sound, apart, guarded.coherent.perform (.releaseAll txn),
      ownedAfterAll guarded.coherent guarded.owned clean⟩

end Guarded

theorem Separate.reads {who : Option TxnId} (apart : p.Separate)
    (moves : Moves (Act.reads who) p q) :
    q.Separate :=
  apart.moves (fun _ own => Act.orderlyOld (Act.mildOrderly (Act.readsMild own))) moves

/- What is seen of a page. -/

theorem viewElsewhere {other : PageId} {frame : Frame} (away : other ≠ page) :
    view? {p with resident := p.resident.insert other frame} page = p.view? page := by
  simp only [view?, KeyMap.getInsert, if_neg away]
  rfl

theorem Sound.extendKept (sound : p.Sound) (apart : p.Separate) {table : TableId}
    {file : HeapFile} {storage : Storage} (found : p.tables.get? table = some file)
    (enlarged : p.storage.Enlarged storage file.volume)
    (numbered : p.Numbered page.table) (seen : p.view? page = some image) :
    view? {p with storage} page = some image := by
  cases present : p.resident.get? page with
  | some frame =>
    rw [viewResident present] at seen
    exact (viewResident (p := {p with storage}) present).trans seen
  | none =>
    rw [viewAbsent present] at seen
    refine (viewAbsent (p := {p with storage}) present).trans ?_
    by_cases own : table = page.table
    · subst own
      obtain ⟨blank, extended, _⟩ := enlarged.fresh
        (sound.sized _ _ found ▸ file.layout.sizePositive) (numbered file found)
      rw [imageExtended apart found extended, if_neg]
      · exact seen
      · rintro ⟨_, last⟩
        rw [sound.imageBeyond found last] at seen
        cases seen
    · exact (imageElsewhere apart found enlarged.toChangedAt own).trans seen

theorem Sound.viewKept (sound : p.Sound) (leaves : act.leaves page) (move : Move act p q)
    (apart : q.Separate) (numbered : q.Numbered page.table) (seen : p.view? page = some image) :
    q.view? page = some image := by
  have before := numbered.before move.grew
  have separate := apart.before move.grew
  cases move with
  | aside observed =>
    rw [← seen]
    simp only [view?, imageSeen observed]
  | load absent space found copied =>
    exact ((Move.load absent space found copied).loadViews page).trans seen
  | @evict _ other frame present clean free =>
    have image : (p.drop other).image? page = p.image? page := by
      simp only [image?, dropTables, dropStorage]
    by_cases own : other = page
    · -- the page that leaves is clean, so its volume shows the same
      subst own
      rw [viewResident present] at seen
      rw [viewAbsent ((residentDrop ..).trans (if_pos rfl)), image,
        sound.faithful separate other frame present clean before]
      exact seen
    · rw [← seen]
      simp only [view?, residentDrop, if_neg own, image]
  | @forget _ other =>
    have image : (p.drop other).image? page = p.image? page := by
      simp only [image?, dropTables, dropStorage]
    rw [← seen]
    simp only [view?, residentDrop, if_neg leaves, image]
  | @save _ other file frame storage present found stored =>
    have image : image? {p with
        storage, resident := p.resident.insert other {frame with page := frame.page.markClean}}
        page = _ := imageSaved separate found stored page
    by_cases own : other = page
    · subst own
      rw [← seen, viewResident present]
      simp only [view?, KeyMap.getInsert, if_true]
      rfl
    · rw [← seen]
      simp only [view?, KeyMap.getInsert, if_neg own, image]
  | extend found enlarged => exact sound.extendKept separate found enlarged before seen
  | take | unprobe | giveBack | giveAll => exact seen
  | fill | clear => exact (viewElsewhere leaves).trans seen
  | @register _ file fresh fits =>
    cases present : p.resident.get? page with
    | some frame =>
      rw [viewResident present] at seen
      exact (viewResident (p := {p with tables := p.tables.insert file.table file}) present).trans
        seen
    | none =>
      -- a page that is seen is one of a table that was there before
      rw [viewAbsent present] at seen
      refine (viewAbsent (p := {p with tables := p.tables.insert file.table file}) present).trans ?_
      have other : ¬ file.table = page.table := fun same => by
        simp only [image?, ← same, fresh, Option.bind_none] at seen
        cases seen
      simp only [image?, KeyMap.getInsert, if_neg other]
      exact seen

theorem Sound.viewsKept (sound : p.Sound) {kind : Act → Prop}
    (leaves : ∀ act, kind act → act.leaves page) (moves : Moves kind p q) (apart : q.Separate)
    (numbered : q.Numbered page.table) (seen : p.view? page = some image) :
    q.view? page = some image := by
  have whole := moves.within (fun p q => p.Sound → q.Sound ∧ Grew p q ∧
      (q.Separate → q.Numbered page.table → p.view? page = some image →
        q.view? page = some image))
    (fun p same => ⟨same, .refl p, fun _ _ seen => seen⟩)
    (fun _ _ _ first second same => by
      obtain ⟨there, grew, kept⟩ := first same
      obtain ⟨here, further, later⟩ := second there
      exact ⟨here, grew.trans further,
        fun apart room seen => later apart room (kept (apart.before further) (room.before further)
          seen)⟩)
    (fun act p q of move same => ⟨same.move move, move.grew, same.viewKept (leaves act of) move⟩)
  exact (whole sound).2.2 apart numbered seen

/- What a transaction that waits can rely on. -/

/- What others may do while a transaction waits: nothing to the pages it has locked. -/
structure Respects (who : Option TxnId) (p q : Pool) : Prop extends Interlude who p q where
  guarded : q.Guarded
  views : ∀ txn, who = some txn → ∀ page image, (p.locks.access? txn page).isSome = true →
    q.Numbered page.table → p.view? page = some image → q.view? page = some image

namespace Respects

variable {who : Option TxnId}

theorem refl (guarded : p.Guarded) : Respects who p p :=
  ⟨.refl guarded.toHoused, guarded, fun _ _ _ _ _ _ seen => seen⟩

theorem trans (first : Respects who p q) (second : Respects who q r) : Respects who p r := by
  refine ⟨first.toInterlude.trans second.toInterlude, second.guarded,
    fun txn own page image locked room seen => ?_⟩
  have there : (q.locks.access? txn page).isSome = true := by rwa [first.access own]
  exact second.views txn own page image there room
    (first.views txn own page image locked (room.before second.grew) seen)

theorem ofMoves {kind : Act → Prop} {other : Option TxnId} (guarded : p.Guarded)
    (there : q.Guarded) (moves : Moves kind p q) (own : ∀ act, kind act → act.byOwn other)
    (apart : ∀ txn, other = some txn → who ≠ some txn)
    (leaves : ∀ txn, who = some txn → ∀ page, (p.locks.access? txn page).isSome = true →
      ∀ act, kind act → act.leaves page) : Respects who p q where
  toInterlude := (moves.mono own).interlude guarded.toHoused apart
  guarded := there
  views txn mine page _ locked numbered seen :=
    guarded.viewsKept (leaves txn mine page locked) moves there.apart numbered seen

theorem ofMild {other : Option TxnId} (guarded : p.Guarded) (moves : Moves (Act.mild other) p q)
    (apart : ∀ txn, other = some txn → who ≠ some txn) : Respects who p q :=
  .ofMoves guarded (guarded.mild moves) moves (fun _ => Act.mildOwn) apart
    fun _ _ page _ _ => Act.mildLeaves page

end Respects

/- How work ends. -/

/- The last that is done for a transaction, after looking and writing back: nothing, a change
of one place, or giving back its locks, with its pages written or forgotten. -/
inductive Final (who : Option TxnId) : Pool → Pool → Prop
  | nothing {p : Pool} : Final who p p
  | fill {p q : Pool} {txn rid data} (own : who = some txn) (move : Move (.fill txn rid data) p q) :
      Final who p q
  | clear {p q : Pool} {txn rid} (own : who = some txn) (move : Move (.clear txn rid) p q) :
      Final who p q
  | leave {p q : Pool} {txn} (own : who = some txn)
      (clean : ∀ page ∈ p.locks.ownedBy txn, p.CleanAt page)
      (move : Move (.giveAll txn) p q) : Final who p q
  | abandon {p m q : Pool} {txn} (own : who = some txn) (forgot : Forgot (p.locks.ownedBy txn) p m)
      (move : Move (.giveAll txn) m q) : Final who p q

theorem Forgot.guarded (forgot : Forgot (p.locks.ownedBy txn) p q) (guarded : p.Guarded) :
    q.Guarded ∧ ∀ page ∈ q.locks.ownedBy txn, q.CleanAt page := by
  refine ⟨guarded.moves (fun _ => Act.forgetsOrderly) forgot.moves,
    fun page mine frame present => ?_⟩
  rw [forgot.locks] at mine
  rw [forgot.resident, if_pos mine] at present
  cases present

theorem Guarded.ownedApart (guarded : p.Guarded) {owner other : TxnId} {mine theirs : PageId}
    (owns : p.locks.access? owner mine = some .exclusive) (another : other ≠ owner)
    (locked : (p.locks.access? other theirs).isSome = true) : mine ≠ theirs := by
  rintro rfl
  rw [guarded.coherent.alone owns another] at locked
  cases locked

namespace Final

variable {who other : Option TxnId}

theorem guarded (final : Final who p q) (guarded : p.Guarded) : q.Guarded := by
  cases final with
  | nothing => exact guarded
  | fill own move | clear own move => exact guarded.move (by trivial) move
  | leave own clean move => exact guarded.giveAll clean move
  | abandon own forgot move =>
    obtain ⟨there, clean⟩ := forgot.guarded guarded
    exact there.giveAll clean move

theorem respects (final : Final other p q) (guarded : p.Guarded)
    (apart : ∀ txn, other = some txn → who ≠ some txn) : Respects who p q := by
  have there := final.guarded guarded
  have another {maker txn : TxnId} (own : other = some maker) (mine : who = some txn) :
      txn ≠ maker := fun same => apart maker own (same ▸ mine)
  have given {m : Pool} {txn : TxnId} (own : other = some txn) (guarded : m.Guarded)
      (move : Move (.giveAll txn) m q) : Respects who m q :=
    .ofMoves guarded there (.one (rfl : Act.giveAll txn = .giveAll txn) move)
      (fun _ same => same ▸ own) apart fun _ _ _ _ _ same => same ▸ trivial
  cases final with
  | nothing => exact .refl guarded
  | @fill _ maker rid data own move =>
    refine .ofMoves guarded there (.one (rfl : Act.fill maker rid data = .fill maker rid data) move)
      (fun _ same => same ▸ trivial) apart fun txn mine page locked _ same => ?_
    subst same
    cases move with
    | fill owns => exact guarded.ownedApart owns (another own mine) locked
  | @clear _ maker rid own move =>
    refine .ofMoves guarded there (.one (rfl : Act.clear maker rid = .clear maker rid) move)
      (fun _ same => same ▸ trivial) apart fun txn mine page locked _ same => ?_
    subst same
    cases move with
    | clear owns => exact guarded.ownedApart owns (another own mine) locked
  | leave own clean move => exact given own guarded move
  | @abandon m _ maker own forgot move =>
    obtain ⟨between, _⟩ := forgot.guarded guarded
    refine Respects.trans ?_ (given own between move)
    refine .ofMoves guarded between forgot.moves (fun _ => Act.forgetsOwn) apart
      fun txn mine page locked act forgets => ?_
    cases act with
    | forget away =>
      -- what is forgotten is owned, and so not locked by the one who waits
      have owns := guarded.coherent.memOwnedBy.mp forgets
      exact guarded.ownedApart owns (another own mine) locked
    | _ => exact forgets.elim

end Final
end Pool
end PagedHeap
