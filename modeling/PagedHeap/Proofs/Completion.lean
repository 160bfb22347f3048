import PagedHeap.Proofs.PoolActivity

/-! Writing back, and the ends of transactions. A commit that succeeds leaves nothing of its
pages to write, an abort nothing of them in the cache; both give all locks back. -/
namespace PagedHeap.Pool

variable {p q : Pool} {pages : List PageId} {txn : TxnId}

theorem Moves.heldBy {who : Option TxnId} (moves : Moves (Act.byOwn who) p q)
    (other : who ≠ some txn) : q.locks.heldBy txn = p.locks.heldBy txn := by
  refine moves.within (fun p q => q.locks.heldBy txn = p.locks.heldBy txn) (fun _ => rfl)
    (fun _ _ _ first second => second.trans first) fun act p q allowed move => ?_
  cases move with
  | take =>
    refine LockTable.heldByRequest _ fun same => other ?_
    rw [same]
    exact allowed
  | unprobe | giveBack =>
    exact (LockTable.heldByRelease ..).trans
      (if_neg fun same => other (allowed.trans (congrArg some same)))
  | giveAll =>
    exact (LockTable.heldByReleaseAll ..).trans
      (if_neg fun same => other (allowed.trans (congrArg some same)))
  | evict | forget => rw [dropLocks]
  | _ => rfl

theorem Moves.interlude {who other : Option TxnId} (moves : Moves (Act.byOwn who) p q)
    (housed : p.Housed) (apart : ∀ txn, who = some txn → other ≠ some txn) : Interlude other p q :=
  ⟨housed.moves moves, moves.grew, fun txn mine =>
    moves.heldBy fun theirs => apart txn theirs mine⟩

theorem Moves.saved (moves : Moves (Act.saves pages) p q) :
    q.tables = p.tables ∧ q.locks = p.locks ∧ ∀ page, p.CleanAt page → q.CleanAt page := by
  refine moves.within (fun p q => q.tables = p.tables ∧ q.locks = p.locks ∧
      ∀ page, p.CleanAt page → q.CleanAt page) (fun _ => ⟨rfl, rfl, fun _ clean => clean⟩)
    (fun _ _ _ first second => ⟨second.1.trans first.1, second.2.1.trans first.2.1,
      fun page clean => second.2.2 page (first.2.2 page clean)⟩) fun act p q allowed move => ?_
  cases move with
  | aside => exact ⟨rfl, rfl, fun _ clean => clean⟩
  | save =>
    refine ⟨rfl, rfl, fun page clean frame present => ?_⟩
    rw [KeyMap.getInsert] at present
    split at present
    · cases present
      rfl
    · exact clean frame present
  | _ => exact allowed.elim

theorem Spared.before {point : FaultPoint} (moves : Moves (Act.saves pages) p q)
    (spared : p.Spared point) : q.Spared point := fun table file found =>
  moves.grew.storage.spares _ _ (spared table file (moves.saved.1 ▸ found))

theorem flushEach (housed : p.Housed) (pages : List PageId) :
    Ends (fun _ q => Moves (Act.saves pages) p q ∧ ∀ page ∈ pages, q.CleanAt page)
      (fun q => Moves (Act.saves pages) p q ∧ ¬ p.Spared .write)
      (pages.forM flushPage p) := by
  refine Ends.forEach (fun finished q =>
    Moves (Act.saves pages) p q ∧ ∀ page ∈ finished, q.CleanAt page)
    (fun finished page q inside before => ?_) [] p ⟨.refl, nofun⟩
  have joined {r : Pool} (moves : Moves (Act.saves [page]) q r) : Moves (Act.saves pages) p r :=
    before.1.trans (moves.mono fun _ => Act.savesMore fun _ there =>
      List.mem_singleton.mp there ▸ inside)
  refine (flushEnds (housed.moves before.1) page).mono (fun _ r saved => ?_) (fun r lost => ?_)
  · refine ⟨joined saved.1, fun other there => ?_⟩
    rcases List.mem_append.mp there with there | there
    · exact saved.1.saved.2.2 other (before.2 other there)
    · exact List.mem_singleton.mp there ▸ saved.2
  · exact ⟨joined lost.1, fun spared => lost.2 (spared.before before.1)⟩

/- All pages are written, in one order or another. -/

theorem arrangedPerm (order : Nat) (pages : List PageId) : (arranged order pages).Perm pages := by
  induction pages generalizing order with
  | nil => exact .refl _
  | cons first rest ih =>
    have others := ih (order / (rest.length + 1))
    have few : order % (rest.length + 1) ≤ rest.length :=
      Nat.le_of_lt_succ (Nat.mod_lt _ (Nat.succ_pos _))
    have inside := Nat.le_trans few (Nat.le_of_eq others.length_eq.symm)
    exact (List.perm_insertIdx first _ inside).trans (others.cons first)

theorem insertedBetween (page : PageId) (before behind : List PageId) :
    (before ++ behind).insertIdx before.length page = before ++ page :: behind := by
  induction before with
  | nil => rfl
  | cons first rest ih => exact congrArg (first :: ·) ih

theorem arrangedInAnyOrder {pages written : List PageId} (perm : written.Perm pages) :
    ∃ order, arranged order pages = written := by
  induction pages generalizing written with
  | nil => exact ⟨0, perm.eq_nil.symm⟩
  | cons first rest ih =>
    obtain ⟨before, behind, rfl⟩ := List.append_of_mem (perm.symm.subset List.mem_cons_self)
    have others : (before ++ behind).Perm rest :=
      (List.perm_middle.symm.trans perm).cons_inv
    obtain ⟨order, arranged⟩ := ih others
    have few : before.length < rest.length + 1 := by
      rw [← others.length_eq, List.length_append]
      omega
    refine ⟨before.length + order * (rest.length + 1), ?_⟩
    rw [Pool.arranged, Nat.add_mul_mod_self_right, Nat.mod_eq_of_lt few,
      Nat.add_mul_div_right _ _ (Nat.succ_pos _), Nat.div_eq_of_lt few, Nat.zero_add, arranged]
    exact insertedBetween ..

theorem flushAllInAnyOrder {written : List PageId} (perm : written.Perm p.resident.keys) :
    ∃ order, flushAll {p with draws := order :: p.draws} = written.forM flushPage p := by
  obtain ⟨order, arranged⟩ := arrangedInAnyOrder perm
  refine ⟨order, ?_⟩
  change (Pool.arranged order p.resident.keys).forM flushPage p = _
  rw [arranged]

theorem flushAllEnds (housed : p.Housed) :
    Ends (fun _ q => Moves (Act.saves p.resident.keys) p q ∧
        ∀ page ∈ p.resident.keys, q.CleanAt page)
      (fun q => Moves (Act.saves p.resident.keys) p q ∧ ¬ p.Spared .write) (flushAll p) := by
  have drawn : Moves (Act.saves p.resident.keys) p {p with draws := p.draws.tail} :=
    .drawn trivial p
  have same := arrangedPerm (p.draws.headD 0) p.resident.keys
  have written {q : Pool} (saved : Moves (Act.saves (arranged (p.draws.headD 0) p.resident.keys))
      {p with draws := p.draws.tail} q) : Moves (Act.saves p.resident.keys) p q :=
    drawn.trans (saved.mono fun _ => Act.savesMore fun _ => same.mem_iff.mp)
  exact (flushEach (housed.moves drawn) _).mono
    (fun _ _ saved => ⟨written saved.1, fun page there => saved.2 page (same.mem_iff.mpr there)⟩)
    fun _ lost => ⟨written lost.1, lost.2⟩

theorem commitEnds (housed : p.Housed) (txn : TxnId) :
    Ends (fun _ q => ∃ m, Moves (Act.saves (p.locks.ownedBy txn)) p m ∧
        (∀ page ∈ p.locks.ownedBy txn, m.CleanAt page) ∧ Move (.giveAll txn) m q)
      (fun q => Moves (Act.saves (p.locks.ownedBy txn)) p q ∧ ¬ p.Spared .write) (commit txn p) :=
  (flushEach housed (p.locks.ownedBy txn)).andThen
    (fun _ q saved => ⟨q, saved.1, saved.2, .giveAll⟩) (fun _ lost => lost)

structure Forgot (pages : List PageId) (p q : Pool) : Prop where
  moves : Moves (Act.forgets pages) p q
  storage : q.storage = p.storage
  tables : q.tables = p.tables
  locks : q.locks = p.locks
  resident : ∀ page, q.resident.get? page = if page ∈ pages then none else p.resident.get? page

theorem forgetAll (pages : List PageId) (p : Pool) : Forgot pages p (pages.foldl drop p) := by
  induction pages generalizing p with
  | nil => exact ⟨.refl, rfl, rfl, rfl, fun _ => rfl⟩
  | cons first rest ih =>
    have later := ih (p.drop first)
    have move : Move (.forget first) p (p.drop first) := .forget
    refine ⟨.trans (.one (show Act.forgets (first :: rest) (.forget first) from List.mem_cons_self)
        move) (later.moves.mono fun _ => Act.forgetsMore fun _ => List.mem_cons_of_mem _),
      later.storage.trans (p.dropStorage first), later.tables.trans (p.dropTables first),
      later.locks.trans (p.dropLocks first), fun page => (later.resident page).trans ?_⟩
    rw [residentDrop]
    by_cases own : first = page
    · simp [own]
    · have away : ¬ page = first := fun same => own same.symm
      simp [own, away]

theorem abortEnds (txn : TxnId) (p : Pool) :
    Ends (fun _ q => ∃ m, Forgot (p.locks.ownedBy txn) p m ∧ Move (.giveAll txn) m q)
      (fun _ => False) (abort txn p) :=
  ⟨_, forgetAll (p.locks.ownedBy txn) p, .giveAll⟩

end PagedHeap.Pool
