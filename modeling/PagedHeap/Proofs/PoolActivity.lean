import PagedHeap.Cursor
import PagedHeap.Proofs.PoolWork

/-! The activities on a pool: getting pages under locks, and records in and out of tables.
While one waits others act, but nobody takes or gives back locks in its name. -/
namespace PagedHeap.Pool

open Storage (Observed)

variable {α β : Type} {kind kind' : Act → Prop} {who : Option TxnId} {txn : TxnId}

structure Interlude (who : Option TxnId) (p q : Pool) : Prop where
  housed : q.Housed
  grew : Grew p q
  locks : ∀ txn, who = some txn → q.locks.heldBy txn = p.locks.heldBy txn

theorem Interlude.refl {p : Pool} (housed : p.Housed) : Interlude who p p :=
  ⟨housed, .refl p, fun _ _ => rfl⟩

theorem Interlude.trans {p q r : Pool} (first : Interlude who p q) (second : Interlude who q r) :
    Interlude who p r :=
  ⟨second.housed, first.grew.trans second.grew,
    fun txn mine => (second.locks txn mine).trans (first.locks txn mine)⟩

theorem Interlude.access {p q : Pool} (others : Interlude who p q) (own : who = some txn)
    (page : PageId) : q.locks.access? txn page = p.locks.access? txn page := by
  simp only [LockTable.access?, others.locks txn own]

/- Every stretch is made up of moves of a kind, and the last one ends as told. -/
def Reaches (kind : Act → Prop) (who : Option TxnId) (done : Pool → α → Pool → Prop)
    (work : Progress Pool α) (p : Pool) : Prop :=
  work.Meets (Moves kind) (Interlude who) (fun p a q => ∃ m, Moves kind p m ∧ done m a q) p

def Merely (fact : α → Pool → Prop) (p : Pool) (a : α) (q : Pool) : Prop := p = q ∧ fact a q

namespace Reaches

variable {done : Pool → α → Pool → Prop} {final : Pool → β → Pool → Prop} {fact : α → Pool → Prop}
  {p : Pool}

theorem instant {r : EStateM.Result Error Pool α}
    (h : Ends (fun a q => ∃ m, Moves kind p m ∧ done m a q) (Moves kind p) r) :
    Reaches kind who done (.ended r) p := Progress.meetsEnded h

theorem lift {r : EStateM.Result Error Pool α}
    (h : Ends (fun a q => Moves kind p q ∧ fact a q) (Moves kind p) r) :
    Reaches kind who (Merely fact) (.ended r) p :=
  instant (h.mono (fun _ q ended => ⟨q, ended.1, rfl, ended.2⟩) (fun _ lost => lost))

theorem mono {work : Progress Pool α} (h : Reaches kind who done work p)
    (wider : ∀ act, kind act → kind' act) {done' : Pool → α → Pool → Prop}
    (weaker : ∀ m a q, done m a q → done' m a q) : Reaches kind' who done' work p :=
  Progress.Meets.mono h (fun _ _ moves => moves.mono wider) (fun _ _ same => same)
    fun _ a q ended => by
      obtain ⟨m, moves, last⟩ := ended
      exact ⟨m, moves.mono wider, weaker m a q last⟩

theorem widen {work : Progress Pool α} (h : Reaches kind who done work p)
    (wider : ∀ act, kind act → kind' act) : Reaches kind' who done work p :=
  h.mono wider fun _ _ _ same => same

theorem meets {work : Progress Pool α} {others : Pool → Pool → Prop}
    (h : Reaches kind who done work p) (wider : ∀ act, kind act → kind' act)
    (fewer : ∀ a b, others a b → Interlude who a b) :
    work.Meets (Moves kind') others (fun p a q => ∃ m, Moves kind' p m ∧ done m a q) p :=
  Progress.Meets.mono (h.widen wider) (fun _ _ same => same) fewer (fun _ _ _ same => same)

theorem after {work : Progress Pool α} {q : Pool} (before : Moves kind p q)
    (h : Reaches kind who done work q) : Reaches kind who done work p :=
  (Progress.Meets.follow (fun _ => .refl) (fun _ _ _ => .trans) before h).mono
    (fun _ _ same => same) (fun _ _ same => same) fun _ a q ended => by
      obtain ⟨u, first, m, second, last⟩ := ended
      exact ⟨m, first.trans second, last⟩

theorem bindKeeping (inv : Pool → Prop) {work : Progress Pool α}
    {next : α → Pool → Progress Pool β} (own : ∀ a b, inv a → Moves kind a b → inv b)
    (others : ∀ a b, inv a → Interlude who a b → inv b) (holds : inv p)
    (first : Reaches kind who (Merely fact) work p)
    (rest : ∀ a q, inv q → fact a q → Reaches kind who final (next a q) q) :
    Reaches kind who final (work.andThen next) p := by
  refine (Progress.Meets.keep inv own others holds first).andThen fun s a q ended => ?_
  obtain ⟨there, m, moves, rfl, answer⟩ := ended
  exact after moves (rest a m (own _ _ there moves) answer)

theorem bind {work : Progress Pool α} {next : α → Pool → Progress Pool β} (housed : p.Housed)
    (first : Reaches kind who (Merely fact) work p)
    (rest : ∀ a q, q.Housed → Grew p q → fact a q → Reaches kind who final (next a q) q) :
    Reaches kind who final (work.andThen next) p :=
  first.bindKeeping (fun q => q.Housed ∧ Grew p q)
    (fun _ _ before moves => ⟨before.1.moves moves, before.2.trans moves.grew⟩)
    (fun _ _ before others => ⟨others.housed, before.2.trans others.grew⟩) ⟨housed, .refl p⟩
    fun a q kept => rest a q kept.1 kept.2

theorem close {work : Progress Pool α} {next : α → Pool → Progress Pool β}
    (first : Reaches kind who done work p)
    (rest : ∀ m a q, done m a q → ∃ b, next a q = .ended (.ok b q) ∧ final m b q) :
    Reaches kind who final (work.andThen next) p := by
  refine Progress.Meets.andThen first fun s a q ended => ?_
  obtain ⟨m, moves, last⟩ := ended
  obtain ⟨b, same, told⟩ := rest m a q last
  rw [same]
  exact ⟨m, moves, told⟩

theorem settled {work : Progress Pool α} (housed : p.Housed) (h : Reaches kind who done work p) :
    Ends (fun a q => ∃ m, Moves kind p m ∧ done m a q) (Moves kind p) work.settle := by
  refine (Progress.Meets.settled Housed (fun _ => .refl) (fun _ _ _ => .trans)
    (fun _ _ there moves => there.moves moves) (fun _ => .refl)
    housed h).mono (fun a q ended => ?_) (fun _ lost => lost)
  obtain ⟨_, early, m, late, last⟩ := ended
  exact ⟨m, early.trans late, last⟩

end Reaches

/- Questions, locks and pages. -/

theorem demandReaches {e : Except Misuse α} {p : Pool} :
    Reaches kind who (Merely fun a _ => e = .ok a) (.ended (demand Pool e p)) p :=
  .lift (.demand (fun _ asked => ⟨.refl, asked⟩) .refl)

theorem countReaches (who : Option TxnId) (file : HeapFile) (p : Pool) :
    Reaches Act.looks who (Merely fun n q => n = .ofNat (q.storage.pages file.volume))
      (.ended (onStorage file.count p)) p :=
  .lift (Ends.inPart ((Storage.countEnds p.storage file.volume).mono
    (fun _ _ seen => ⟨.aside trivial seen.1,
      seen.2.trans (congrArg UInt32.ofNat (seen.1.pages _).symm)⟩)
    (fun _ failed => .aside trivial failed.1)))

theorem lockMeets (others : Pool → Pool → Prop) (wanted : Lock) (p : Pool) :
    (lock wanted p).Meets Eq others (fun s _ t => Move (.take wanted) s t) p := by
  have granted {q : Pool} {locks : LockTable} (h : q.locks.request wanted = (true, locks)) :
      Move (.take wanted) q {q with locks} := by
    have locks : (q.locks.request wanted).2 = locks := by rw [h]
    exact locks ▸ .take (by rw [h])
  unfold lock
  cases asked : p.locks.request wanted with
  | mk yes locks =>
    cases yes with
    | true =>
      rw [LockTable.acquireGranted asked]
      exact granted asked
    | false =>
      have refused : (p.locks.request wanted).1 = false := by rw [asked]
      rw [LockTable.acquireWaiting refused]
      refine ⟨rfl, fun q _ => ?_⟩
      cases again : q.locks.request wanted with
      | mk yes locks =>
        cases yes with
        | true =>
          simp only [LockTable.acquireGranted again]
          exact granted again
        | false =>
          have refused : (q.locks.request wanted).1 = false := by rw [again]
          simp only [LockTable.acquireExpired refused]
          exact rfl

theorem lockSettled (wanted : Lock) (p : Pool) : (lock wanted).settled p =
    if (p.locks.request wanted).1 then .ok () {p with locks := (p.locks.request wanted).2}
    else .error (.aborted wanted.txn wanted.page) p := by
  unfold Activity.settled lock
  cases asked : p.locks.request wanted with
  | mk yes locks =>
    cases yes with
    | true =>
      rw [LockTable.acquireGranted asked]
      rfl
    | false =>
      have refused : (p.locks.request wanted).1 = false := by rw [asked]
      simp only [LockTable.acquireWaiting refused, Progress.settle,
        LockTable.acquireExpired refused]
      rfl

def Got (txn : TxnId) (page : PageId) (access : Access) (before : LockTable) (frame : Frame)
    (q : Pool) : Prop :=
  q.resident.get? page = some frame ∧ q.locks.access? txn page =
    some (if before.access? txn page = some .exclusive then .exclusive else access)

theorem getPageReaches {p : Pool} (housed : p.Housed) (txn : TxnId) (page : PageId)
    (access : Access) :
    Reaches (Act.readsOn (some txn) page.table) (some txn) (Merely (Got txn page access p.locks))
      (getPage txn page access p) p := by
  have asked := Progress.Meets.keep
    (fun q => q.Housed ∧ q.locks.heldBy txn = p.locks.heldBy txn)
    (fun a b before same => same ▸ before)
    (fun a b before others => ⟨others.housed, (others.locks txn rfl).trans before.2⟩)
    ⟨housed, rfl⟩ (lockMeets (Interlude (some txn)) ⟨txn, page, access⟩ p)
  refine (asked.mono (fun a b same => same ▸ .refl) (fun _ _ same => same)
    (fun _ _ _ same => same)).andThen fun s _ q ended => ?_
  obtain ⟨⟨before, same⟩, taken⟩ := ended
  have own : Act.readsOn (some txn) page.table (.take ⟨txn, page, access⟩) := ⟨rfl, rfl⟩
  refine Reaches.after (.one own taken)
    (Reaches.lift ((fetchEnds (before.move taken) page).mono (fun frame t fetched => ?_)
      (fun t lost => lost.mono fun _ => Act.looksReadsOn)))
  refine ⟨fetched.1.mono fun _ => Act.looksReadsOn, fetched.2, ?_⟩
  rw [fetched.1.sameLocks]
  cases taken with
  | take granted =>
    refine (LockTable.accessRequest granted txn page).trans ?_
    simp only [LockTable.access?, same, and_self, if_true]
    rfl

/- Places for records. -/

def Knows (p : Pool) (file : HeapFile) : Prop := p.tables.get? file.table = some file

theorem Knows.later {p q : Pool} {file : HeapFile} (known : p.Knows file) (grew : Grew p q) :
    q.Knows file := grew.tables _ _ known

theorem allocateEnds {p : Pool} {file : HeapFile} (known : p.Knows file)
    (grows : kind (.extend file.table)) (aside : kind .aside) :
    Ends (fun page q => Moves kind p q ∧ page.table = file.table) (Moves kind p)
      (onStorage file.allocate p) := by
  refine Ends.inPart ((HeapFile.allocateEnds file p.storage).mono (fun page storage made => ?_)
    (fun storage seen => .aside aside seen))
  obtain ⟨rfl, enlarged⟩ := made
  exact ⟨.one grows (.extend known enlarged), rfl⟩

def Holding (txn : TxnId) (held : PageId → Prop) (p : Pool) : Prop :=
  ∀ page, held page → (p.locks.access? txn page).isSome = true

variable {held : PageId → Prop} {table : TableId}

theorem Holding.move {p q : Pool} {act : Act} (holding : p.Holding txn held)
    (allowed : act.placesOn (some txn) table held) (move : Move act p q) : q.Holding txn held :=
  fun page there => move.keepsLock (fun lost => by
    cases act with
    | unprobe => exact allowed.2 (lost.2 ▸ there)
    | giveBack | giveAll => exact allowed.1.1.elim
    | _ => exact lost.elim) (holding page there)

theorem Holding.moves {p q : Pool} (holding : p.Holding txn held)
    (moves : Moves (Act.placesOn (some txn) table held) p q) : q.Holding txn held :=
  moves.within (fun p q => p.Holding txn held → q.Holding txn held) (fun _ same => same)
    (fun _ _ _ first second same => second (first same))
    (fun _ _ _ allowed move same => same.move allowed move) holding

theorem Reaches.bindHolding {p : Pool} {fact : α → Pool → Prop} {final : Pool → β → Pool → Prop}
    {work : Progress Pool α} {next : α → Pool → Progress Pool β} (housed : p.Housed)
    (holding : p.Holding txn held)
    (first : Reaches (Act.placesOn (some txn) table held) (some txn) (Merely fact) work p)
    (rest : ∀ a q, q.Housed → Grew p q → q.Holding txn held → fact a q →
      Reaches (Act.placesOn (some txn) table held) (some txn) final (next a q) q) :
    Reaches (Act.placesOn (some txn) table held) (some txn) final (work.andThen next) p :=
  first.bindKeeping (fun q => q.Housed ∧ Grew p q ∧ q.Holding txn held)
    (fun _ _ before moves => ⟨before.1.moves moves, before.2.1.trans moves.grew,
      before.2.2.moves moves⟩)
    (fun _ _ before others => ⟨others.housed, before.2.1.trans others.grew,
      fun page there => (others.access rfl page).symm ▸ before.2.2 page there⟩)
    ⟨housed, .refl p, holding⟩ fun a q kept => rest a q kept.1 kept.2.1 kept.2.2

theorem firstWithRoomHolding {p : Pool} {file : HeapFile} (housed : p.Housed)
    (holding : p.Holding txn held) (numbers : List UInt32) :
    Reaches (Act.placesOn (some txn) file.table held) (some txn)
      (Merely fun page? _ => ∀ page ∈ page?, page.table = file.table)
      (file.firstWithRoom txn numbers p) p := by
  induction numbers generalizing p with
  | nil => exact .lift ⟨.refl, nofun⟩
  | cons number rest ih =>
    have got : Reaches (Act.placesOn (some txn) file.table held) _ _ _ p :=
      (getPageReaches housed txn ⟨file.table, number⟩ .shared).widen fun _ => Act.readsPlacesOn
    have looked : Reaches (Act.placesOn (some txn) file.table held) (some txn)
        (Merely fun held q => q = p ∧ held = p.locks.holds txn ⟨file.table, number⟩)
        (.ended (holds txn ⟨file.table, number⟩ p)) p := .lift ⟨.refl, rfl, rfl⟩
    refine looked.bindHolding housed holding fun locked q _ _ _ seen => ?_
    obtain ⟨rfl, rfl⟩ := seen
    refine got.bindHolding housed holding fun frame r there _ still got => ?_
    change Reaches _ _ _ ((if frame.page.hasRoom then pure (some ⟨file.table, number⟩)
      else (monadLift (releaseProbe (q.locks.holds txn ⟨file.table, number⟩) txn
        ⟨file.table, number⟩) >>= fun _ => file.firstWithRoom txn rest :
          Activity Pool (Option PageId)) : Activity Pool (Option PageId)) r) r
    split
    · exact .lift ⟨.refl, fun page found => Option.some.inj found ▸ rfl⟩
    · change Reaches _ _ _ (Progress.andThen (fun _ => file.firstWithRoom txn rest) (.ended
        (releaseProbe (q.locks.holds txn ⟨file.table, number⟩) txn ⟨file.table, number⟩ r))) r
      cases locked : q.locks.holds txn ⟨file.table, number⟩ with
      | true => exact ih there still
      | false =>
        have missing : q.locks.access? txn ⟨file.table, number⟩ = none := by
          simpa [LockTable.holds] using locked
        have shared : r.locks.access? txn ⟨file.table, number⟩ = some .shared := by
          rw [got.2, missing]
          rfl
        have fresh : ¬ held ⟨file.table, number⟩ := fun there => by
          have before := holding _ there
          rw [missing] at before
          cases before
        have given : Move (.unprobe txn ⟨file.table, number⟩) r _ := .unprobe shared
        have own : Act.placesOn (some txn) file.table held (.unprobe txn ⟨file.table, number⟩) :=
          ⟨⟨rfl, rfl⟩, fresh⟩
        exact .after (.one own given) (ih (there.move given) (still.move own given))

theorem pageWithRoomHolding {p : Pool} {file : HeapFile} (housed : p.Housed)
    (known : p.Knows file) (holding : p.Holding txn held) :
    Reaches (Act.placesOn (some txn) file.table held) (some txn)
      (Merely fun page _ => page.table = file.table)
      (file.pageWithRoom txn p) p := by
  have counted : Reaches (Act.placesOn (some txn) file.table held) _ _ _ p :=
    (countReaches (some txn) file p).widen fun _ => Act.looksPlacesOn
  refine counted.bindHolding housed holding fun count q there grew still _ => ?_
  refine (firstWithRoomHolding there still _).bindHolding there still
    fun page? r here further _ found => ?_
  cases page? with
  | some page => exact .lift ⟨.refl, found page rfl⟩
  | none =>
    exact .lift (allocateEnds (known.later (grew.trans further)) ⟨⟨trivial, rfl⟩, trivial⟩
      ⟨⟨trivial, trivial⟩, trivial⟩)

theorem Holding.none (txn : TxnId) (p : Pool) : p.Holding txn fun _ => False := nofun

theorem firstWithRoomReaches {p : Pool} {file : HeapFile} (housed : p.Housed)
    (numbers : List UInt32) :
    Reaches (Act.seeksOn (some txn) file.table) (some txn)
      (Merely fun page? _ => ∀ page ∈ page?, page.table = file.table)
      (file.firstWithRoom txn numbers p) p :=
  (firstWithRoomHolding housed (.none txn p) numbers).widen fun _ => And.left

theorem pageWithRoomReaches {p : Pool} {file : HeapFile} (housed : p.Housed)
    (known : p.Knows file) :
    Reaches (Act.seeksOn (some txn) file.table) (some txn)
      (Merely fun page _ => page.table = file.table)
      (file.pageWithRoom txn p) p :=
  (pageWithRoomHolding housed known (.none txn p)).widen fun _ => And.left

theorem countedInside {count number : UInt32} (inside : ¬ count ≤ number) :
    number.toNat + 1 < UInt32.size := by
  have last : count.toNat < UInt32.size := count.toNat_lt
  rw [UInt32.le_iff_toNat_le] at inside
  omega

def Visited (who : Option TxnId) (file : HeapFile) (number : UInt32) :
    Option Frame → Pool → Prop
  | none, q => UInt32.ofNat (q.storage.pages file.volume) ≤ number
  | some frame, q => q.resident.get? ⟨file.table, number⟩ = some frame ∧
      (∀ txn, who = some txn → (q.locks.access? txn ⟨file.table, number⟩).isSome = true) ∧
      number.toNat + 1 < UInt32.size

theorem visitReaches {p : Pool} (who : Option TxnId) (file : HeapFile) (housed : p.Housed)
    (number : UInt32) :
    Reaches (Act.readsOn who file.table) who (Merely (Visited who file number))
      (file.visit who number p) p := by
  have counted : Reaches (Act.readsOn who file.table) _ _ _ p :=
    (countReaches who file p).widen fun _ => Act.looksReadsOn
  refine counted.bind housed fun count q there _ told => ?_
  clear counted
  by_cases beyond : count ≤ number
  · simp only [beyond, if_true]
    exact .lift ⟨.refl, show UInt32.ofNat _ ≤ number from told ▸ beyond⟩
  · have inside := countedInside beyond
    simp only [beyond, if_false]
    cases who with
    | some txn =>
      refine (getPageReaches there txn ⟨file.table, number⟩ .shared).bind there
        fun frame r _ _ got => .lift ⟨.refl, got.1, fun other same => ?_, inside⟩
      cases same
      rw [got.2]
      rfl
    | none =>
      have fetched : Reaches (Act.readsOn none file.table) none _ _ q :=
        (Reaches.lift (fetchEnds there ⟨file.table, number⟩)).widen fun _ => Act.looksReadsOn
      exact fetched.bind there fun frame r _ _ got =>
        .lift ⟨.refl, got, nofun, inside⟩

end PagedHeap.Pool
