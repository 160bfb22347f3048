import PagedHeap.Proofs.Completion
import PagedHeap.Proofs.LockEffects
import PagedHeap.Proofs.Placements
import PagedHeap.Proofs.Rows

/-! Marks and locks. A page carries the mark of a transaction only while that transaction has
the page to itself, whatever files the tables are kept in, even if several share one, and
whatever becomes of the calls of the volumes. -/
namespace PagedHeap

namespace Pool

variable {α β : Type} {who : Option TxnId} {txn : TxnId} {page : PageId} {p q r : Pool}

/- Pages are kept under their own numbers, and whoever has marked one owns it. -/
structure Tended (p : Pool) : Prop where
  coherent : p.locks.Coherent
  keyed : ∀ page frame, p.resident.get? page = some frame → frame.page.id = page
  owned : ∀ page frame txn, p.resident.get? page = some frame →
    frame.page.dirtiedBy = some txn → p.locks.access? txn page = some .exclusive

/- Locks are as they were, and so is every page that is not fresh and clean. -/
structure Tamed (p q : Pool) : Prop where
  locks : q.locks = p.locks
  resident : ∀ page frame, q.resident.get? page = some frame →
    p.resident.get? page = some frame ∨ frame.page.id = page ∧ frame.page.dirtiedBy = none

namespace Tamed

theorem same (locks : q.locks = p.locks) (resident : q.resident = p.resident) : Tamed p q :=
  ⟨locks, fun _ _ present => .inl (resident ▸ present)⟩

theorem refl (p : Pool) : Tamed p p := .same rfl rfl

theorem trans (first : Tamed p q) (second : Tamed q r) : Tamed p r := by
  refine ⟨second.locks.trans first.locks, fun page frame present => ?_⟩
  rcases second.resident page frame present with before | fresh
  · exact first.resident page frame before
  · exact .inr fresh

theorem put {frame : Frame} (key : frame.page.id = page) (clean : frame.page.dirtiedBy = none) :
    Tamed p {p with resident := p.resident.insert page frame} := by
  refine ⟨rfl, fun other found present => ?_⟩
  rw [KeyMap.getInsert] at present
  split at present
  · rename_i same
    cases present
    exact .inr ⟨key.trans same, clean⟩
  · exact .inl present

theorem drop (p : Pool) (page : PageId) : Tamed p (p.drop page) := by
  refine ⟨p.dropLocks page, fun other frame present => ?_⟩
  rw [residentDrop] at present
  split at present
  · cases present
  · exact .inl present

theorem cleanAt (tamed : Tamed p q) (clean : p.CleanAt page) : q.CleanAt page :=
  fun frame present => (tamed.resident page frame present).elim (clean frame) And.right

end Tamed

namespace Tended

theorem tamed (tended : p.Tended) (tamed : Tamed p q) : q.Tended where
  coherent := tamed.locks ▸ tended.coherent
  keyed page frame present :=
    (tamed.resident page frame present).elim (tended.keyed page frame) And.left
  owned page frame txn present dirty := by
    rw [tamed.locks]
    rcases tamed.resident page frame present with before | fresh
    · exact tended.owned page frame txn before dirty
    · rw [fresh.2] at dirty
      cases dirty

theorem relocked {act : Act} (tended : p.Tended) (allowed : act.orderly) (move : Move act p q)
    (resident : q.resident = p.resident) : q.Tended where
  coherent := move.coherent tended.coherent
  keyed := resident ▸ tended.keyed
  owned := move.owned allowed tended.owned

theorem marked (tended : p.Tended) {frame : Frame} (key : frame.page.id = page)
    (mark : frame.page.dirtiedBy = some txn)
    (owns : p.locks.access? txn page = some .exclusive) :
    Tended {p with resident := p.resident.insert page frame} := by
  refine ⟨tended.coherent, fun other found present => ?_, fun other found maker present dirty => ?_⟩
  all_goals
    rw [KeyMap.getInsert] at present
    split at present
  · rename_i same
    cases present
    exact key.trans same
  · exact tended.keyed other found present
  · rename_i same
    cases present
    rw [mark] at dirty
    cases dirty
    exact same ▸ owns
  · exact tended.owned other found maker present dirty

theorem giveAll (tended : p.Tended) (clean : ∀ page ∈ p.locks.ownedBy txn, p.CleanAt page) :
    Tended {p with locks := (p.locks.releaseAll txn).2} :=
  ⟨tended.coherent.perform (.releaseAll txn), tended.keyed,
    ownedAfterAll tended.coherent tended.owned clean⟩

end Tended

/- Instant work. -/

def Tames (work : Instant Pool α) : Prop :=
  ∀ p, p.Tended → Ends (fun _ q => Tamed p q) (Tamed p) (work p)

namespace Tames

theorem bind {work : Instant Pool α} {next : α → Instant Pool β} (first : Tames work)
    (rest : ∀ a, Tames (next a)) : Tames (work >>= next) := fun p tended =>
  (first p tended).andThen (fun a q tamed => (rest a q (tended.tamed tamed)).mono
    (fun _ _ later => tamed.trans later) (fun _ later => tamed.trans later)) (fun _ tamed => tamed)

theorem returns (a : α) : Tames (pure a) := fun p _ => Tamed.refl p

theorem throws (cause : Error) : Tames (throw cause : Instant Pool α) := fun p _ => Tamed.refl p

theorem gets : Tames get := fun p _ => Tamed.refl p

theorem asks (e : Except Misuse α) : Tames (demand Pool e) := fun p _ =>
  .demand (fun _ _ => .refl p) (.refl p)

theorem storage (work : Instant Storage α) : Tames (onStorage work) := fun _ _ =>
  Ends.inPart (by cases work (storagePart.get _) <;> exact .same rfl rfl)

theorem drops (page : PageId) : Tames (modify (·.drop page)) := fun p _ => Tamed.drop p page

end Tames

theorem tableTames (id : TableId) : Tames (table id) := .bind .gets fun _ => .asks _

theorem flushTamed (tended : p.Tended) (page : PageId) :
    Ends (fun _ q => Tamed p q ∧ q.CleanAt page) (Tamed p) (flushPage page p) := by
  cases present : p.resident.get? page with
  | none =>
    rw [flushAbsent present]
    exact ⟨.refl p, fun frame found => by rw [present] at found; cases found⟩
  | some frame =>
    cases dirty : frame.page.isDirty with
    | false =>
      rw [flushClean present dirty]
      refine ⟨.refl p, fun other found => ?_⟩
      rw [present] at found
      cases found
      exact Option.isNone_iff_eq_none.mp (Option.isSome_eq_false_iff.mp dirty)
    | true =>
      unfold flushPage
      rw [getThen]
      simp only [present, dirty, if_true]
      refine (tableEnds p frame.page.id.table).andThen (fun file q here => ?_)
        (fun q lost => lost.1 ▸ .refl p)
      obtain ⟨rfl, _⟩ := here
      have called : Ends (fun _ r => ∃ storage, r = {q with storage}) (Tamed q)
          (onStorage (file.writePage frame.page) q) :=
        Ends.inPart (by cases file.writePage frame.page (storagePart.get q) with
          | ok => exact ⟨_, rfl⟩
          | error => exact .same rfl rfl)
      refine called.andThen (fun _ r wrote => ?_) (fun _ lost => lost)
      obtain ⟨storage, rfl⟩ := wrote
      have key := tended.keyed page frame present
      have written : update {q with storage} {frame with page := frame.page.markClean} =
          {q with
            storage
            resident := q.resident.insert page {frame with page := frame.page.markClean}} :=
        writeOver present rfl key
      change Tamed q (update {q with storage} _) ∧ CleanAt (update {q with storage} _) page
      rw [written]
      refine ⟨(Tamed.same rfl rfl : Tamed q {q with storage}).trans (.put key rfl),
        fun other found => ?_⟩
      cases ((KeyMap.getInsert ..).trans (if_pos rfl)).symm.trans found
      rfl

theorem flushEachTamed (tended : p.Tended) (pages : List PageId) :
    Ends (fun _ q => Tamed p q ∧ ∀ page ∈ pages, q.CleanAt page) (Tamed p)
      (pages.forM flushPage p) := by
  refine Ends.forEach (fun finished q => Tamed p q ∧ ∀ page ∈ finished, q.CleanAt page)
    (fun finished page q _ before => ?_) [] p ⟨.refl p, nofun⟩
  refine (flushTamed (tended.tamed before.1) page).mono (fun _ r flushed => ?_)
    (fun _ lost => before.1.trans lost)
  refine ⟨before.1.trans flushed.1, fun other there => ?_⟩
  rcases List.mem_append.mp there with there | there
  · exact flushed.1.cleanAt (before.2 other there)
  · exact List.mem_singleton.mp there ▸ flushed.2

theorem drawTames : Tames draw := fun _ _ => .same rfl rfl

theorem flushAllTames : Tames flushAll :=
  drawTames.bind fun _ => .bind .gets fun _ => fun _ tended =>
    (flushEachTamed tended _).mono (fun _ _ flushed => flushed.1) fun _ lost => lost

theorem makeRoomTames : Tames makeRoom := by
  have evicts : Tames evict := by
    refine .bind .gets fun p => ?_
    split
    · exact .bind .gets fun _ => .throws _
    · have flushes (page : PageId) : Tames (flushPage page) := fun p tended =>
        (flushTamed tended page).mono (fun _ _ flushed => flushed.1) (fun _ lost => lost)
      exact drawTames.bind fun _ => (flushes _).bind fun _ => .drops _
  refine .bind .gets fun p => ?_
  split
  · exact evicts
  · exact .returns _

theorem fetchTamed (tended : p.Tended) (page : PageId) :
    Ends (fun frame q => Tamed p q ∧ q.resident.get? page = some frame) (Tamed p)
      (fetch page p) := by
  unfold fetch
  rw [getThen]
  cases present : p.resident.get? page with
  | some frame => exact ⟨.refl p, present⟩
  | none =>
    refine (makeRoomTames p tended).andThen (fun _ q roomy => ?_) (fun _ lost => lost)
    refine ((tableTames page.table) q (tended.tamed roomy)).andThen (fun file r found => ?_)
      (fun _ lost => roomy.trans lost)
    have before := roomy.trans found
    have read : Ends (fun copy t => ∃ storage, t = {r with storage} ∧ copy.id = page ∧
          copy.dirtiedBy = none) (Tamed p) (onStorage (file.readPage page) r) :=
      Ends.inPart ((HeapFile.readEnds file r.storage page).mono
        (fun _ storage copied => ⟨storage, rfl, copied.2.key, copied.2.clean⟩)
        (fun _ _ => before.trans (.same rfl rfl)))
    refine read.andThen (fun copy t got => ?_) (fun _ lost => lost)
    obtain ⟨storage, rfl, key, clean⟩ := got
    have aside : Tamed r {r with storage, nextFrame := r.nextFrame + 1} := .same rfl rfl
    have kept : Tamed {r with storage, nextFrame := r.nextFrame + 1} _ :=
      .put (show (Frame.mk r.nextFrame copy).page.id = page from key) clean
    exact ⟨before.trans (aside.trans kept), (KeyMap.getInsert ..).trans (if_pos rfl)⟩

/- Activities. -/

structure Meantime (who : Option TxnId) (p q : Pool) : Prop where
  tended : q.Tended
  locks : ∀ txn, who = some txn → q.locks.heldBy txn = p.locks.heldBy txn

def StaysTended (who : Option TxnId) (fact : α → Pool → Prop) (work : Progress Pool α) (p : Pool) :
    Prop :=
  work.Meets (fun _ q => q.Tended) (Meantime who) (fun _ a q => q.Tended ∧ fact a q) p

namespace StaysTended

variable {fact : α → Pool → Prop} {final : β → Pool → Prop}

theorem bind {work : Progress Pool α} {next : α → Pool → Progress Pool β}
    (first : StaysTended who fact work p)
    (rest : ∀ a q, q.Tended → fact a q → StaysTended who final (next a q) q) :
    StaysTended who final (work.andThen next) p :=
  Progress.Meets.andThen first fun _ a q ended => (rest a q ended.1 ended.2).anywhere

theorem instant {work : Instant Pool α} (tended : p.Tended)
    (h : Ends (fun a q => Tamed p q ∧ fact a q) (Tamed p) (work p)) :
    StaysTended who fact (.ended (work p)) p :=
  Progress.meetsEnded (h.mono (fun _ _ ended => ⟨tended.tamed ended.1, ended.2⟩)
    (fun _ lost => tended.tamed lost))

theorem lift {work : Instant Pool α} (tames : Tames work) (tended : p.Tended) :
    StaysTended who (fun _ _ => True) (.ended (work p)) p :=
  .instant tended ((tames p tended).mono (fun _ _ tamed => ⟨tamed, trivial⟩) (fun _ lost => lost))

theorem returns (a : α) (tended : p.Tended) (h : fact a p) :
    StaysTended who fact (.ended (.ok a p)) p := ⟨tended, h⟩

end StaysTended

theorem getPageTended (tended : p.Tended) (txn : TxnId) (page : PageId) (access : Access) :
    StaysTended (some txn) (Got txn page access p.locks) (getPage txn page access p) p := by
  have asked := Progress.Meets.keep
    (fun q => q.Tended ∧ q.locks.heldBy txn = p.locks.heldBy txn)
    (fun a b before same => same ▸ before)
    (fun a b before others => ⟨others.tended, (others.locks txn rfl).trans before.2⟩)
    ⟨tended, rfl⟩ (lockMeets (Meantime (some txn)) ⟨txn, page, access⟩ p)
  have waits := asked.keepAll (·.Tended) (fun a b before same => same ▸ before)
    (fun a b _ others => others.tended) tended
  refine (waits.mono (fun a b same => same.2 ▸ same.1) (fun _ _ same => same)
    (fun _ _ _ same => same.2)).andThen fun s _ q ended => ?_
  obtain ⟨⟨before, same⟩, taken⟩ := ended
  have there : q.Tended := before.relocked (show Act.orderly (.take ⟨txn, page, access⟩)
    from trivial) taken (by cases taken; rfl)
  refine Progress.Meets.anywhere (StaysTended.instant (p := q) there
    ((fetchTamed there page).mono (fun frame t fetched => ?_) (fun _ lost => lost)))
  refine ⟨fetched.1, fetched.2, ?_⟩
  rw [fetched.1.locks]
  cases taken with
  | take granted =>
    refine (LockTable.accessRequest granted txn page).trans ?_
    simp only [LockTable.access?, same, and_self, if_true]
    rfl

theorem firstWithRoomTended (tended : p.Tended) (file : HeapFile) (numbers : List UInt32) :
    StaysTended (some txn) (fun _ _ => True) (file.firstWithRoom txn numbers p) p := by
  induction numbers generalizing p with
  | nil => exact .returns none tended trivial
  | cons number rest ih =>
    refine (getPageTended tended txn ⟨file.table, number⟩ .shared).bind fun frame q there got => ?_
    change StaysTended _ _ ((if frame.page.hasRoom then pure (some ⟨file.table, number⟩)
      else (monadLift (releaseProbe (p.locks.holds txn ⟨file.table, number⟩) txn
        ⟨file.table, number⟩) >>= fun _ => file.firstWithRoom txn rest :
          Activity Pool (Option PageId)) : Activity Pool (Option PageId)) q) q
    split
    · exact .returns _ there trivial
    · change StaysTended _ _ (Progress.andThen (fun _ => file.firstWithRoom txn rest) (.ended
        (releaseProbe (p.locks.holds txn ⟨file.table, number⟩) txn ⟨file.table, number⟩ q))) q
      cases held : p.locks.holds txn ⟨file.table, number⟩ with
      | true => exact ih there
      | false =>
        -- the lock was taken for the look only, so it is a shared one
        have missing : p.locks.access? txn ⟨file.table, number⟩ = none := by
          simpa [LockTable.holds] using held
        have shared : q.locks.access? txn ⟨file.table, number⟩ = some .shared := by
          rw [got.2, missing]
          rfl
        have given : Move (.unprobe txn ⟨file.table, number⟩) q _ := .unprobe shared
        exact (ih (there.relocked (show Act.orderly (.unprobe txn ⟨file.table, number⟩)
          from trivial) given rfl)).anywhere

theorem pageWithRoomTended (tended : p.Tended) (file : HeapFile) :
    StaysTended (some txn) (fun _ _ => True) (file.pageWithRoom txn p) p := by
  refine (StaysTended.lift (.storage file.count) tended).bind fun count q there _ => ?_
  refine (firstWithRoomTended there file _).bind fun page? r here _ => ?_
  cases page? with
  | some page => exact .returns page here trivial
  | none => exact .lift (.storage file.allocate) here

theorem markEnds (tended : p.Tended) {frame : Frame} {copy : Page}
    (present : p.resident.get? page = some frame) (key : copy.id = frame.page.id)
    (owns : p.locks.access? txn page = some .exclusive) :
    (p.update ⟨frame.id, copy.markDirty txn⟩).Tended ∧
      Pinned txn ⟨frame.id, copy.markDirty txn⟩ (p.update ⟨frame.id, copy.markDirty txn⟩) := by
  have home : copy.id = page := key.trans (tended.keyed page frame present)
  obtain ⟨updated, pinned⟩ := pinnedWrite txn present home
  refine ⟨?_, pinned⟩
  rw [updated]
  exact tended.marked (show (Frame.mk frame.id (copy.markDirty txn)).page.id = page from home)
    rfl owns

theorem insertWithinTended (tended : p.Tended) (file : HeapFile) (data : Bytes) (tries : Nat) :
    StaysTended (some txn) (fun x => Pinned txn x.2) (file.insertWithin txn data tries p) p := by
  induction tries generalizing p with
  | zero => exact tended
  | succ tries ih =>
    refine (pageWithRoomTended tended file).bind fun home q there _ => ?_
    refine (getPageTended there txn home .exclusive).bind fun frame r here got => ?_
    have owns : r.locks.access? txn home = some .exclusive := by
      rw [got.2]
      split <;> rfl
    change StaysTended _ _ ((if frame.page.hasRoom then (monadLift (HeapFile.fill txn data frame) :
      Activity Pool (Rid × Frame)) else file.insertWithin txn data tries) r) r
    split
    · change StaysTended _ _ (.ended (HeapFile.fill txn data frame r)) r
      have made : Ends (fun x q => q = r ∧ frame.page.insert data = .ok x) (· = r)
        (demand Pool (frame.page.insert data) r) := .demand (fun _ filled => ⟨rfl, filled⟩) rfl
      refine Progress.meetsEnded (made.andThen (fun x q filled => ?_) (fun _ same => same ▸ here))
      obtain ⟨rfl, filled⟩ := filled
      obtain ⟨slot, _, inserted⟩ := Page.insertSource filled
      exact markEnds here got.1 inserted.sameId owns
    · exact ih here

theorem pinTended (tended : p.Tended) {frame : Frame} (pinned : Pinned txn frame p) :
    StaysTended who (fun _ _ => True) (.ended (pin txn frame p)) p := by
  rw [pinSame pinned]
  exact .returns () tended trivial

theorem insertTended (tended : p.Tended) (table : TableId) (data : Bytes) :
    StaysTended (some txn) (fun _ _ => True) (insert txn table data p) p := by
  refine (StaysTended.lift (tableTames table) tended).bind fun file q there _ => ?_
  have placed : StaysTended (some txn) (fun x => Pinned txn x.2) (file.insert txn data q) q :=
    (StaysTended.lift (.asks (file.checkWidth data)) there).bind fun _ r here _ =>
      insertWithinTended here file data UInt32.size
  exact placed.bind fun x r here pinned =>
    (pinTended here pinned).bind fun _ s near _ => .returns x.1 near trivial

theorem deleteTended (tended : p.Tended) (rid : Option Rid) :
    StaysTended (some txn) (fun _ _ => True) (delete txn rid p) p := by
  refine (StaysTended.lift (.asks (HeapFile.checkRid rid)) tended).bind fun place q there _ => ?_
  refine (StaysTended.lift (tableTames place.page.table) there).bind fun file r here _ => ?_
  have cleared : StaysTended (some txn) (Pinned txn) (file.delete txn (some place) r) r := by
    refine StaysTended.bind (StaysTended.lift (.asks (HeapFile.checkRid (some place))) here)
      fun rid a first _ => ?_
    refine StaysTended.bind (StaysTended.lift (.asks (file.checkTable rid.page)) first)
      fun _ b next _ => ?_
    refine (StaysTended.lift (.storage file.count) next).bind fun count c near _ => ?_
    refine (StaysTended.lift (.asks (file.checkEnd count rid.page)) near).bind fun _ d close _ => ?_
    refine (getPageTended close txn rid.page .exclusive).bind fun frame e home got => ?_
    have owns : e.locks.access? txn rid.page = some .exclusive := by
      rw [got.2]
      split <;> rfl
    have made : Ends (fun copy q => q = e ∧ frame.page.delete (some rid) = .ok copy) (· = e)
        (demand Pool (frame.page.delete (some rid)) e) :=
      .demand (fun _ cleared => ⟨rfl, cleared⟩) rfl
    refine Progress.meetsEnded (made.andThen (fun copy q cleared => ?_) (fun _ same => same ▸ home))
    obtain ⟨rfl, cleared⟩ := cleared
    obtain ⟨slot, _, deleted⟩ := Page.deleteSource cleared
    exact markEnds home got.1 deleted.sameId owns
  exact cleared.bind fun x s near pinned => pinTended near pinned

theorem scanTended (who : Option TxnId) (file : HeapFile) (tended : p.Tended) :
    StaysTended who (fun _ _ => True) (file.scan who p) p := by
  have visits {p : Pool} (tended : p.Tended) (number : UInt32) :
      StaysTended who (fun _ _ => True) (file.visit who number p) p := by
    refine (StaysTended.lift (.storage file.count) tended).bind fun count q there _ => ?_
    by_cases beyond : count ≤ number
    · simp only [beyond, if_true]
      exact .returns none there trivial
    · simp only [beyond, if_false]
      cases who with
      | some txn =>
        exact (getPageTended there txn ⟨file.table, number⟩ .shared).bind
          fun frame r here _ => .returns _ here trivial
      | none =>
        exact StaysTended.bind (StaysTended.instant there (fetchTamed there _))
          fun frame r here _ => .returns _ here trivial
  have walks (left : Nat) {p : Pool} (tended : p.Tended) (number : UInt32) :
      StaysTended who (fun _ _ => True) (file.walk who left number p) p := by
    induction left generalizing p number with
    | zero => exact .returns [] tended trivial
    | succ left ih =>
      refine (visits tended number).bind fun frame? q there _ => ?_
      cases frame? with
      | none => exact .returns [] there trivial
      | some frame =>
        exact (ih there (number + 1)).bind fun _ r here _ => .returns _ here trivial
  exact walks UInt32.size tended 0

/- The ends of transactions. -/

theorem commitTended (tended : p.Tended) (txn : TxnId) :
    Ends (fun _ q => q.Tended ∧ ActsFor (some txn) p q) (Tamed p) (commit txn p) := by
  refine (flushEachTamed tended (p.locks.ownedBy txn)).andThen (fun _ q flushed => ?_)
    (fun _ lost => lost)
  have clean := flushed.2
  rw [← flushed.1.locks] at clean
  exact ⟨(tended.tamed flushed.1).giveAll clean,
    (ActsFor.ofLocks flushed.1.locks).trans (.releaseAll txn)⟩

theorem abortTended (tended : p.Tended) (txn : TxnId) :
    Ends (fun _ q => q.Tended ∧ ActsFor (some txn) p q ∧ q.storage = p.storage) (fun _ => False)
      (abort txn p) := by
  have forgot := forgetAll (p.locks.ownedBy txn) p
  have tamed : Tamed p ((p.locks.ownedBy txn).foldl drop p) := by
    refine ⟨forgot.locks, fun page frame present => .inl ?_⟩
    rw [forgot.resident] at present
    split at present
    · cases present
    · exact present
  refine ⟨(tended.tamed tamed).giveAll fun page mine frame present => ?_,
    (ActsFor.ofLocks forgot.locks).trans (.releaseAll txn), forgot.storage⟩
  rw [forgot.locks] at mine
  rw [forgot.resident, if_pos mine] at present
  cases present

end Pool
end PagedHeap
