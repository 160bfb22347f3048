import PagedHeap.Proofs.FailedCommits
import PagedHeap.Proofs.Scopes
import PagedHeap.Proofs.SureCalls

/-! Pools that only their caches tell apart, as far as the tables of a scope are concerned. What is
seen of a page and whether it is changed says nothing about where it is kept, so looking around,
which fills and empties a cache, leaves a pool as it was as far as anybody can tell. -/
namespace PagedHeap

namespace Pool

variable {scope : Scope} {p q p' q' m n : Pool} {act : Act} {page : PageId} {file : HeapFile}
  {txn : TxnId}

/- No call goes wrong, pages can be counted in words, and whoever has marked a page has it to
himself. -/
structure Able (p : Pool) : Prop extends Guarded p where
  smooth : p.Smooth
  room : p.Room

/- The pools differ in nothing but what is in their caches, or lies outside the scope. -/
structure Alike (scope : Scope) (p q : Pool) : Prop where
  tables : q.tables = p.tables
  pages : ∀ table file, scope.Holds table → p.tables.get? table = some file →
    q.storage.pages file.volume = p.storage.pages file.volume
  locks : scope.seen q.locks = scope.seen p.locks
  images : ∀ page : PageId, scope.Holds page.table → q.image? page = p.image? page
  views : ∀ page : PageId, scope.Holds page.table → q.view? page = p.view? page
  marked : ∀ page : PageId, scope.Holds page.table → q.marked page = p.marked page

namespace Alike

theorem refl (p : Pool) : Alike scope p p :=
  ⟨rfl, fun _ _ _ _ => rfl, rfl, fun _ _ => rfl, fun _ _ => rfl, fun _ _ => rfl⟩

theorem symm (alike : Alike scope p q) : Alike scope q p where
  tables := alike.tables.symm
  pages table file held found := (alike.pages table file held (alike.tables ▸ found)).symm
  locks := alike.locks.symm
  images page held := (alike.images page held).symm
  views page held := (alike.views page held).symm
  marked page held := (alike.marked page held).symm

theorem trans (first : Alike scope p q) (second : Alike scope q m) : Alike scope p m where
  tables := second.tables.trans first.tables
  pages table file held found :=
    (second.pages table file held (first.tables ▸ found)).trans (first.pages table file held found)
  locks := second.locks.trans first.locks
  images page held := (second.images page held).trans (first.images page held)
  views page held := (second.views page held).trans (first.views page held)
  marked page held := (second.marked page held).trans (first.marked page held)

theorem ofSame (sized : Sized p q) (locks : q.locks = p.locks)
    (images : ∀ page, q.image? page = p.image? page) (views : ∀ page, q.view? page = p.view? page)
    (marked : ∀ page, q.marked page = p.marked page) : Alike scope p q :=
  ⟨sized.tables, fun table file _ => sized.pages table file, congrArg scope.seen locks,
    fun page _ => images page, fun page _ => views page, fun page _ => marked page⟩

theorem relocked (alike : Alike scope p q) {locks locks' : LockTable}
    (same : scope.seen locks' = scope.seen locks) :
    Alike scope {p with locks} {q with locks := locks'} :=
  ⟨alike.tables, alike.pages, same, alike.images, alike.views, alike.marked⟩

theorem put (alike : Alike scope p q) {f g : Frame} (same : f.page = g.page) :
    Alike scope {p with resident := p.resident.insert page f}
      {q with resident := q.resident.insert page g} := by
  refine ⟨alike.tables, alike.pages, alike.locks, alike.images, fun other held => ?_,
    fun other held => ?_⟩
  · by_cases own : page = other
    · subst own
      rw [viewResident ((KeyMap.getInsert ..).trans (if_pos rfl)),
        viewResident ((KeyMap.getInsert ..).trans (if_pos rfl)), same]
    · rw [viewElsewhere own, viewElsewhere own]
      exact alike.views other held
  · by_cases own : page = other
    · subst own
      rw [markedPresent ((KeyMap.getInsert ..).trans (if_pos rfl)),
        markedPresent ((KeyMap.getInsert ..).trans (if_pos rfl)), same]
    · simp only [Pool.marked, KeyMap.getInsert, if_neg own]
      exact alike.marked other held

end Alike

namespace Able

theorem move (able : p.Able) (allowed : act.orderly) (room : q.Room) (move : Move act p q) :
    q.Able :=
  ⟨able.toGuarded.move allowed move, able.smooth.move able.toHoused able.apart allowed move, room⟩

theorem moveStill (able : p.Able) (allowed : act.orderly) (still : act.still)
    (move : Move act p q) : q.Able :=
  able.move allowed ((able.apart.sizedMove still move).room able.room) move

theorem moves {kind : Act → Prop} (able : p.Able) (allowed : ∀ act, kind act → act.orderly)
    (still : ∀ act, kind act → act.still) (moves : Moves kind p q) : q.Able where
  toGuarded := able.toGuarded.moves allowed moves
  smooth := able.smooth.moves able.toHoused able.apart allowed moves
  room := (able.apart.sizedMoves still moves).room able.room

theorem giveAll (able : p.Able) (clean : ∀ page ∈ p.locks.ownedBy txn, p.CleanAt page)
    (move : Move (.giveAll txn) p q) : q.Able := by
  have guarded := able.toGuarded.giveAll clean move
  have sized := able.apart.sizedMove (show Act.still (.giveAll txn) from trivial) move
  cases move with
  | giveAll => exact ⟨guarded, able.smooth.relocked _, sized.room able.room⟩

theorem sameMark (left : p.Able) (right : q.Able) (alike : Alike scope p q)
    (held : scope.Holds page.table) {f g : Frame} (mine : p.resident.get? page = some f)
    (theirs : q.resident.get? page = some g) : f.page.dirtiedBy = g.page.dirtiedBy := by
  have marks : g.page.isDirty = f.page.isDirty :=
    (markedPresent theirs).symm.trans ((alike.marked page held).trans (markedPresent mine))
  unfold Page.isDirty at marks
  cases mark : f.page.dirtiedBy with
  | none =>
    rw [mark] at marks
    exact (Option.isNone_iff_eq_none.mp (Option.isSome_eq_false_iff.mp marks)).symm
  | some txn =>
    rw [mark] at marks
    obtain ⟨other, mark'⟩ := Option.isSome_iff_exists.mp marks
    have owns := left.owned page f txn mine mark
    have owns' := right.owned page g other theirs mark'
    rw [scope.access alike.locks held] at owns'
    by_cases own : other = txn
    · rw [mark', own]
    · rw [left.coherent.alone owns own] at owns'
      cases owns'

theorem ownedAlike (left : p.Able) (right : q.Able) (alike : Alike scope p q)
    (held : scope.Holds page.table) : page ∈ p.locks.ownedBy txn ↔ page ∈ q.locks.ownedBy txn := by
  rw [left.coherent.memOwnedBy, right.coherent.memOwnedBy, scope.access alike.locks held]

end Able

/- Looking around. -/

theorem Able.look (able : p.Able) (allowed : act.looks) (move : Move act p q) :
    Alike scope p q := by
  have views := able.lookViews able.apart allowed move able.room
  have sized := able.apart.sizedMove (Act.looksStill allowed) move
  cases move with
  | aside seen => exact .ofSame sized rfl (imageSeen seen) views fun _ => rfl
  | @load _ home file copy absent space found copied =>
    refine .ofSame sized rfl (fun _ => rfl) views fun other => ?_
    by_cases own : home = other
    · subst own
      refine (markedPresent ((KeyMap.getInsert ..).trans (if_pos rfl))).trans ?_
      rw [marked, absent, Page.isDirty, copied.clean]
      rfl
    · simp only [marked, KeyMap.getInsert, if_neg own]
  | @evict _ home frame present clean =>
    have images (other : PageId) : (p.drop home).image? other = p.image? other := by
      simp only [image?, dropTables, dropStorage]
    refine .ofSame sized (dropLocks ..) images views fun other => ?_
    by_cases own : home = other
    · subst own
      rw [markedPresent present, Page.isDirty, clean, marked, residentDrop, if_pos rfl]
      rfl
    · simp only [marked, residentDrop, if_neg own]
  | _ => exact allowed.elim

theorem Able.looked (able : p.Able) (moves : Moves Act.looks p q) : q.Able ∧ Alike scope p q :=
  moves.within (fun p q => p.Able → q.Able ∧ Alike scope p q) (fun p able => ⟨able, .refl p⟩)
    (fun p q r first second able => by
      obtain ⟨there, early⟩ := first able
      obtain ⟨here, late⟩ := second there
      exact ⟨here, early.trans late⟩)
    (fun act p q looks move able => ⟨able.moveStill (Act.looksOrderly looks)
      (Act.looksStill looks) move, able.look looks move⟩) able

structure Twins (scope : Scope) (p q : Pool) : Prop where
  left : p.Able
  right : q.Able
  alike : Alike scope p q

namespace Twins

theorem looked (twins : Twins scope p q) (mine : Moves Act.looks p p')
    (theirs : Moves Act.looks q q') : Twins scope p' q' := by
  obtain ⟨left, before⟩ := twins.left.looked mine
  obtain ⟨right, after⟩ := twins.right.looked theirs
  exact ⟨left, right, before.symm.trans (twins.alike.trans after)⟩

theorem known (twins : Twins scope p q) {table : TableId}
    (found : p.tables.get? table = some file) : q.tables.get? table = some file := by
  rw [twins.alike.tables, found]

theorem access (twins : Twins scope p q) (held : scope.Holds page.table) (txn : TxnId) :
    q.locks.access? txn page = p.locks.access? txn page := scope.access twins.alike.locks held txn

theorem samePage (twins : Twins scope p q) (held : scope.Holds page.table) {f g : Frame}
    (mine : p.resident.get? page = some f) (theirs : q.resident.get? page = some g) :
    f.page = g.page := by
  obtain ⟨file, found, key, layout, _⟩ := twins.left.keeps page f mine
  obtain ⟨other, found', key', layout', _⟩ := twins.right.keeps page g theirs
  cases (twins.known found).symm.trans found'
  have mark := twins.left.sameMark twins.right twins.alike held mine theirs
  have image : g.page.image = f.page.image := by
    refine Option.some.inj ?_
    rw [← viewResident mine, ← viewResident theirs, twins.alike.views page held]
  obtain ⟨_, a⟩ := f
  obtain ⟨_, b⟩ := g
  cases a
  cases b
  simp_all

theorem relocked (twins : Twins scope p q) {locks locks' : LockTable}
    (same : scope.seen locks' = scope.seen locks) (left : Able {p with locks})
    (right : Able {q with locks := locks'}) :
    Twins scope {p with locks} {q with locks := locks'} :=
  ⟨left, right, twins.alike.relocked same⟩

theorem given (twins : Twins scope p q) (clean : ∀ page ∈ p.locks.ownedBy txn, p.CleanAt page)
    (clean' : ∀ page ∈ q.locks.ownedBy txn, q.CleanAt page) :
    Twins scope {p with locks := (p.locks.releaseAll txn).2}
      {q with locks := (q.locks.releaseAll txn).2} :=
  twins.relocked (scope.releaseAll twins.alike.locks txn) (twins.left.giveAll clean .giveAll)
    (twins.right.giveAll clean' .giveAll)

end Twins

/- Writing back. -/

theorem Able.flushed (able : p.Able) (pages : List PageId) :
    Ends (fun _ m => m.Able ∧ Sized p m ∧ Wrote pages p m ∧ ∀ page ∈ pages, m.CleanAt page)
      (fun _ => False) (pages.forM flushPage p) :=
  ((flushEach able.toHoused pages).both (flushParts able.toHoused able.apart pages)).mono
    (fun _ m ended => by
      obtain ⟨⟨saved, clean⟩, wrote⟩ := ended
      exact ⟨able.moves (fun _ => Act.savesOrderly) (fun _ => Act.savesStill) saved,
        able.apart.sizedMoves (fun _ => Act.savesStill) saved, wrote, clean⟩)
    (fun _ lost => lost.1.2 (able.smooth.calls .write))

theorem Alike.flushed {pages pages' : List PageId} (alike : Alike scope p q) (mine : Sized p m)
    (theirs : Sized q n) (wrote : Wrote pages p m) (wrote' : Wrote pages' q n)
    (same : ∀ page : PageId, scope.Holds page.table → p.marked page = true →
      (page ∈ pages ↔ page ∈ pages')) : Alike scope m n := by
  refine ⟨?_, fun table file held found => ?_, ?_, fun page held => ?_, fun page held => ?_,
    fun page held => ?_⟩
  · rw [mine.tables, theirs.tables, alike.tables]
  · rw [mine.tables] at found
    rw [mine.pages table file found, theirs.pages table file (alike.tables ▸ found),
      alike.pages table file held found]
  · rw [wrote.locks, wrote'.locks, alike.locks]
  · rw [wrote.landed, wrote'.landed, alike.views page held, alike.images page held,
      alike.marked page held]
    cases mark : p.marked page with
    | false => simp
    | true => simp [same page held mark]
  · rw [wrote.views, wrote'.views, alike.views page held]
  · rw [wrote.marked, wrote'.marked, alike.marked page held]
    cases mark : p.marked page with
    | false => simp
    | true => simp [same page held mark]

/- Forgetting. -/

theorem Able.forgot (able : p.Able) {pages : List PageId} (forgot : Forgot pages p m) : m.Able :=
  able.moves (fun _ => Act.forgetsOrderly) (fun _ => Act.forgetsStill) forgot.moves

theorem Alike.forgot {pages pages' : List PageId} (alike : Alike scope p q)
    (mine : Forgot pages p m) (theirs : Forgot pages' q n)
    (same : ∀ page : PageId, scope.Holds page.table → (page ∈ pages ↔ page ∈ pages')) :
    Alike scope m n := by
  have image {pages : List PageId} {p m : Pool} (forgot : Forgot pages p m) (page : PageId) :
      m.image? page = p.image? page := by
    simp only [image?, forgot.storage, forgot.tables]
  have images (page : PageId) (held : scope.Holds page.table) : n.image? page = m.image? page := by
    rw [image mine, image theirs, alike.images page held]
  refine ⟨?_, fun table file held found => ?_, ?_, images, fun page held => ?_, fun page held => ?_⟩
  · rw [mine.tables, theirs.tables, alike.tables]
  · rw [mine.storage, theirs.storage]
    exact alike.pages table file held (mine.tables ▸ found)
  · rw [mine.locks, theirs.locks, alike.locks]
  · by_cases away : page ∈ pages
    · have away' := (same page held).mp away
      rw [viewAbsent ((mine.resident page).trans (if_pos away)),
        viewAbsent ((theirs.resident page).trans (if_pos away')), images page held]
    · have away' := fun there => away ((same page held).mpr there)
      have view {pages : List PageId} {p m : Pool} (forgot : Forgot pages p m)
          (away : page ∉ pages) : m.view? page = p.view? page := by
        simp only [view?, forgot.resident, if_neg away, image forgot]
      rw [view mine away, view theirs away', alike.views page held]
  · simp only [Pool.marked, mine.resident, theirs.resident, same page held]
    split
    · rfl
    · exact alike.marked page held

/- Growing. -/

section growing

variable {table : TableId} {image : Bytes} {storage storage' : Storage}

theorem Alike.extended (alike : Alike scope p q) (mine : p.Able) (theirs : q.Able)
    (held : scope.Holds table) (found : p.tables.get? table = some file)
    (extended : p.storage.Extended storage file.volume image)
    (extended' : q.storage.Extended storage' file.volume image) :
    Alike scope {p with storage} {q with storage := storage'} := by
  have found' : q.tables.get? table = some file := by rw [alike.tables, found]
  have count := alike.pages table file held found
  refine ⟨alike.tables, fun other its held known => ?_, alike.locks, fun page held => ?_,
    fun page held => ?_, alike.marked⟩
  · have known' : q.tables.get? other = some its := by rw [alike.tables]; exact known
    change storage'.pages its.volume = storage.pages its.volume
    rw [mine.apart.pagesExtended found extended known,
      theirs.apart.pagesExtended found' extended' known',
      alike.pages other its held known]
  · refine (imageExtended theirs.apart found' extended' page).trans ?_
    rw [count, alike.images page held]
    exact (imageExtended mine.apart found extended page).symm
  · rw [theirs.viewExtended theirs.apart found' extended',
      mine.viewExtended mine.apart found extended, count,
      alike.views page held]

end growing

end Pool
end PagedHeap
