import PagedHeap.Proofs.Guards

/-! What the end of a transaction does to what is seen and to what lasts. A commit makes
last what was seen on its pages, an abort shows again what lasted there, and neither touches
a page of anybody else. -/
namespace PagedHeap.Pool

variable {p q : Pool} {pages : List PageId} {txn : TxnId}

theorem Orderly.cleanRows (orderly : p.Orderly) (room : p.Room) {rid : Rid}
    (clean : p.CleanAt rid.page) : p.durable rid = p.rows rid := by
  refine rowsOfSame rfl ?_
  cases present : p.resident.get? rid.page with
  | none => exact (viewAbsent present).symm
  | some frame =>
    rw [viewResident present]
    exact orderly.faithful orderly.apart _ frame present (clean frame present) (room _)

theorem Orderly.guarded (orderly : p.Orderly) : p.Guarded :=
  ⟨orderly.toSound, orderly.apart, orderly.coherent, orderly.owned⟩

theorem Orderly.giveAll (orderly : p.Orderly) (clean : ∀ page ∈ p.locks.ownedBy txn, p.CleanAt page)
    (move : Move (.giveAll txn) p q) : q.Orderly := by
  have guarded := orderly.guarded.giveAll clean move
  cases move with
  | giveAll =>
    exact {
      toSound := guarded.toSound
      apart := guarded.apart
      writes := orderly.writes
      fills := orderly.fills
      slots := orderly.slots
      coherent := guarded.coherent
      owned := guarded.owned }

theorem Move.giveAllQuiet (move : Move (.giveAll txn) p q) : Quiet p q := by
  cases move with
  | giveAll => exact ⟨rfl, rfl⟩

/- What an ending leaves of the two maps: on pages of the transaction both are what one
of them was, on other pages they are as before. -/
structure Settled (p q : Pool) (txn : TxnId) (kept : Rows) : Prop where
  orderly : q.Orderly
  grew : Grew p q
  locks : q.locks = (p.locks.releaseAll txn).2
  rows : q.Room → ∀ rid, q.rows rid =
    if p.locks.access? txn rid.page = some .exclusive then kept rid else p.rows rid
  durable : q.Room → ∀ rid, q.durable rid =
    if p.locks.access? txn rid.page = some .exclusive then kept rid else p.durable rid

theorem Orderly.savesRows (orderly : p.Orderly) (moves : Moves (Act.saves pages) p q)
    (room : q.Room) :
    q.rows = p.rows ∧ ∀ rid, rid.page ∉ pages → q.durable rid = p.durable rid := by
  have whole := moves.within (fun p q => p.Orderly → q.Orderly ∧ Grew p q ∧ (q.Room →
      q.rows = p.rows ∧ ∀ rid, rid.page ∉ pages → q.durable rid = p.durable rid))
    (fun p same => ⟨same, .refl p, fun _ => ⟨rfl, fun _ _ => rfl⟩⟩)
    (fun _ _ _ first second same => by
      obtain ⟨there, grew, saved⟩ := first same
      obtain ⟨here, further, later⟩ := second there
      refine ⟨here, grew.trans further, fun room => ?_⟩
      obtain ⟨rows, durable⟩ := saved (room.before further)
      obtain ⟨rows', durable'⟩ := later room
      exact ⟨rows'.trans rows, fun rid away => (durable' rid away).trans (durable rid away)⟩)
    (fun act p q allowed move same => by
      refine ⟨same.move (Act.savesOrderly allowed) move, move.grew, fun room => ?_⟩
      cases act with
      | aside =>
        have quiet := same.lookQuiet (show Act.seeks none .aside from trivial) move room
        exact ⟨quiet.rows, fun rid _ => congrFun quiet.durable rid⟩
      | save page =>
        obtain ⟨rows, durable⟩ := same.saveRows move
        refine ⟨rows, fun rid away => (durable rid).trans (if_neg ?_)⟩
        rintro rfl
        exact away allowed
      | _ => exact allowed.elim)
  exact (whole orderly).2.2 room

theorem Orderly.commitEnds (orderly : p.Orderly) (txn : TxnId) :
    Ends (fun _ q => Settled p q txn p.rows) (fun _ => False) (commit txn p) := by
  refine (Pool.commitEnds orderly.toHoused txn).mono (fun _ q ended => ?_)
    (fun q lost => lost.2 orderly.writes)
  obtain ⟨m, saved, clean, given⟩ := ended
  have there := orderly.moves (fun _ => Act.savesOrderly) saved
  have locks := saved.saved.2.1
  have quiet := given.giveAllQuiet
  have own {rid : Rid} : rid.page ∈ p.locks.ownedBy txn ↔
      p.locks.access? txn rid.page = some .exclusive := orderly.coherent.memOwnedBy
  refine ⟨there.giveAll (locks ▸ clean) given, saved.grew.trans given.grew, ?_, fun room rid => ?_,
    fun room rid => ?_⟩
  · cases given with
    | giveAll => rw [locks]
  · obtain ⟨rows, _⟩ := orderly.savesRows saved (room.before given.grew)
    rw [quiet.rows, rows]
    split <;> rfl
  · obtain ⟨rows, durable⟩ := orderly.savesRows saved (room.before given.grew)
    rw [quiet.durable]
    split
    · rename_i mine
      -- once written, a page of the transaction lasts as it is seen
      rw [there.cleanRows (room.before given.grew) (clean _ (own.mpr mine)), rows]
    · rename_i other
      exact durable rid fun mine => other (own.mp mine)

theorem Orderly.abortEnds (orderly : p.Orderly) (txn : TxnId) :
    Ends (fun _ q => Settled p q txn p.durable) (fun _ => False) (abort txn p) := by
  refine (Pool.abortEnds txn p).mono (fun _ q ended => ?_) (fun _ none => none)
  obtain ⟨m, forgot, given⟩ := ended
  have there := orderly.moves (fun _ => Act.forgetsOrderly) forgot.moves
  have quiet := given.giveAllQuiet
  have own {rid : Rid} : rid.page ∈ p.locks.ownedBy txn ↔
      p.locks.access? txn rid.page = some .exclusive := orderly.coherent.memOwnedBy
  have image (page : PageId) : m.image? page = p.image? page := by
    simp only [image?, forgot.storage, forgot.tables]
  refine ⟨there.giveAll (fun page mine frame present => ?_) given,
    forgot.moves.grew.trans given.grew, ?_, fun room rid => ?_, fun room rid => ?_⟩
  · rw [forgot.locks] at mine
    rw [forgot.resident, if_pos mine] at present
    cases present
  · cases given with
    | giveAll => rw [forgot.locks]
  · rw [quiet.rows]
    split
    · rename_i mine
      refine rowsOfSame forgot.tables ?_
      rw [viewAbsent ((forgot.resident _).trans (if_pos (own.mpr mine))), image]
    · rename_i other
      refine rowsOfSame forgot.tables ?_
      simp only [view?, forgot.resident, if_neg fun mine => other (own.mp mine), image]
  · rw [quiet.durable]
    split <;> exact rowsOfSame forgot.tables (image rid.page)

end PagedHeap.Pool
