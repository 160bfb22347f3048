import PagedHeap.Proofs.Completion
import PagedHeap.Proofs.FileGrowth
import PagedHeap.Proofs.Placements
import PagedHeap.Proofs.Traffic

/-! The laws of the cache, whatever is asked of a pool, by whomever, and whatever becomes of
the calls of its volumes. -/
namespace PagedHeap

inductive PoolCall where
  | register (file : HeapFile)
  | get (txn : TxnId) (page : PageId) (access : Access)
  | peek (page : PageId)
  | release (txn : TxnId) (page : PageId)
  | insert (txn : TxnId) (table : TableId) (data : Bytes)
  | delete (txn : TxnId) (rid : Option Rid)
  | flush (txn : TxnId)
  | flushAll
  | discard (page : PageId)
  | commit (txn : TxnId)
  | abort (txn : TxnId)

namespace PoolCall

def txn? : PoolCall → Option TxnId
  | .get txn .. | .release txn _ | .insert txn .. | .delete txn _ | .flush txn | .commit txn
  | .abort txn => some txn
  | .register _ | .peek _ | .flushAll | .discard _ => none

def work : PoolCall → Activity Pool Unit
  | .register file => Pool.register file
  | .get txn page access => do let _ ← Pool.getPage txn page access
  | .peek page => do let _ ← Pool.fetch page
  | .release txn page => Pool.release txn page
  | .insert txn table data => do let _ ← Pool.insert txn table data
  | .delete txn rid => Pool.delete txn rid
  | .flush txn => Pool.flushOwned txn
  | .flushAll => Pool.flushAll
  | .discard page => Pool.discard page
  | .commit txn => Pool.commit txn
  | .abort txn => Pool.abort txn

def changes : PoolCall → Act → Prop
  | .insert txn _ data, .fill maker _ bytes => maker = txn ∧ bytes = data
  | .delete txn rid, .clear maker place => maker = txn ∧ rid = some place
  | .register file, .register other => other = file
  | _, _ => False

theorem changesOwn {call : PoolCall} {act : Act} (h : call.changes act) : act.byOwn call.txn? := by
  cases call <;> cases act <;> first | exact h.elim | trivial

end PoolCall

namespace Pool

/- Anything may be asked for at any time. -/

/- A new table may share its volume with others. -/
def sharing : Service Pool PoolCall Unit where
  txn? := PoolCall.txn?
  work := PoolCall.work
  Admits
    | .register file, p => p.tables.get? file.table = none → p.Suits file
    | _, _ => True

def service : Service Pool PoolCall Unit where
  txn? := PoolCall.txn?
  work := PoolCall.work
  Admits
    | .register file, p => p.tables.get? file.table = none → p.Fits file
    | _, _ => True

theorem admittedShared {call : PoolCall} {p : Pool} (admitted : service.Admits call p) :
    sharing.Admits call p := by
  cases call with
  | register => exact fun fresh => (admitted fresh).1
  | _ => trivial

variable {p : Pool}

section stays

variable {α : Type} {who : Option TxnId}

def Stays (who : Option TxnId) (work : Progress Pool α) (p : Pool) : Prop :=
  work.Meets (Moves (Act.byOwn who)) (Interlude who) (fun p _ q => Moves (Act.byOwn who) p q) p

theorem Reaches.stays {kind : Act → Prop} {done : Pool → α → Pool → Prop}
    {work : Progress Pool α} (h : Reaches kind who done work p)
    (own : ∀ act, kind act → act.byOwn who)
    (last : ∀ m a q, done m a q → Moves (Act.byOwn who) m q) : Stays who work p := by
  refine Progress.Meets.mono h (fun _ _ moves => moves.mono own) (fun _ _ same => same)
    fun s a q ended => ?_
  obtain ⟨m, moves, done⟩ := ended
  exact (moves.mono own).trans (last m a q done)

end stays

theorem registerCases (file : HeapFile) (p : Pool) :
    register file p = if p.tables.contains file.table then
      .error (.invalid (.tableTaken file.table)) p
    else .ok () {p with tables := p.tables.insert file.table file} := by
  unfold register
  rw [getThen, checkFree]
  split <;> rfl

theorem registerEnds {file : HeapFile} (suits : p.tables.get? file.table = none → p.Suits file) :
    Ends (fun _ q => Move (.register file) p q) (· = p) (register file p) := by
  rw [registerCases]
  split
  · exact rfl
  · rename_i free
    have fresh : p.tables.get? file.table = none := by simpa [KeyMap.contains] using free
    exact Move.register fresh (suits fresh)

theorem insertStays (housed : p.Housed) (txn : TxnId) (table : TableId) (data : Bytes) :
    Stays (some txn) (insert txn table data p) p := by
  refine (insertReaches housed table data).stays (fun _ own => Act.seeksOwn own.1)
    fun m rid q filled => ?_
  exact .one (show Act.byOwn (some txn) (.fill txn rid data) from trivial) filled.1

theorem deleteStays (housed : p.Housed) (txn : TxnId) (rid : Option Rid) :
    Stays (some txn) (delete txn rid p) p := by
  refine (deleteReaches housed rid).stays (fun _ => Act.seeksOwn) fun m _ q cleared => ?_
  obtain ⟨place, _, move⟩ := cleared
  exact .one (show Act.byOwn (some txn) (.clear txn place) from trivial) move

/- How a call ends: nothing more is done, or the one move that changes a record or the tables. -/
def Treads (call : PoolCall) (m q : Pool) : Prop := m = q ∨ ∃ act, call.changes act ∧ Move act m q

theorem callReaches (housed : p.Housed) (call : PoolCall) (admitted : sharing.Admits call p) :
    Reaches (Act.calmOwn call.txn?) call.txn? (fun m _ q => Treads call m q) (call.work p) p := by
  have moved {kind : Act → Prop} (calm : ∀ act, kind act → act.calmOwn call.txn?) {q : Pool}
      (moves : Moves kind p q) : ∃ m, Moves (Act.calmOwn call.txn?) p m ∧ Treads call m q :=
    ⟨q, moves.mono calm, .inl rfl⟩
  have flushed (work : Instant Pool Unit) {pages : List PageId}
      (ended : Ends (fun _ q => Moves (Act.saves pages) p q ∧ ∀ page ∈ pages, q.CleanAt page)
        (fun q => Moves (Act.saves pages) p q ∧ ¬ p.Spared .write) (work p)) :
      Reaches (Act.calmOwn call.txn?) call.txn? (fun m _ q => Treads call m q)
        (.ended (work p)) p :=
    .instant (ended.mono (fun _ _ saved => moved (fun _ => Act.savesCalm) saved.1)
      fun _ lost => lost.1.mono fun _ => Act.savesCalm)
  cases call with
  | register file =>
    exact .instant ((registerEnds admitted).mono
      (fun _ q made => ⟨p, .refl, .inr ⟨.register file, rfl, made⟩⟩) fun _ same => same ▸ .refl)
  | get txn page access =>
    exact ((getPageReaches housed _ page access).widen fun _ own =>
      Act.seeksCalm (Act.readsSeeks own.1)).close fun m a q same => ⟨(), rfl, .inl same.1⟩
  | peek page =>
    have looked {act : Act} (own : act.looks) : act.calmOwn none :=
      Act.seeksCalm (Act.looksSeeks own)
    have fetched : Reaches (Act.calmOwn none) none (Merely fun _ _ => True)
        (.ended (fetch page p)) p :=
      .lift ((fetchEnds housed page).mono
        (fun _ _ ended => ⟨ended.1.mono fun _ => looked, trivial⟩)
        fun _ lost => lost.mono fun _ => looked)
    exact fetched.close fun m a q same => ⟨(), rfl, .inl same.1⟩
  | release txn page =>
    have given : Move (.giveBack txn page) p _ := .giveBack
    have own : Act.calmOwn (some txn) (.giveBack txn page) := ⟨rfl, trivial⟩
    exact .instant ⟨_, .one own given, .inl rfl⟩
  | insert txn table data =>
    exact ((insertReaches housed table data).widen fun _ own => Act.seeksCalm own.1).close
      fun m rid q filled => ⟨(), rfl, .inr ⟨.fill txn rid data, ⟨rfl, rfl⟩, filled.1⟩⟩
  | delete txn rid =>
    refine (deleteReaches housed rid).mono (fun _ => Act.seeksCalm) fun m _ q cleared => ?_
    obtain ⟨place, same, move⟩ := cleared
    exact .inr ⟨.clear txn place, ⟨rfl, same⟩, move⟩
  | flush txn => exact flushed (flushOwned txn) (flushEach housed _)
  | flushAll => exact flushed flushAll (flushAllEnds housed)
  | discard page =>
    have forgotten : Move (.forget page) p _ := .forget
    have own : Act.calmOwn none (.forget page) := ⟨trivial, trivial⟩
    exact .instant ⟨_, .one own forgotten, .inl rfl⟩
  | commit txn =>
    refine .instant ((commitEnds housed txn).mono (fun _ q ended => ?_)
      fun _ lost => lost.1.mono fun _ => Act.savesCalm)
    obtain ⟨m, saved, _, given⟩ := ended
    have own : Act.calmOwn (some txn) (.giveAll txn) := ⟨rfl, trivial⟩
    exact moved (fun _ => id) ((saved.mono fun _ => Act.savesCalm).trans (.one own given))
  | abort txn =>
    refine .instant ((abortEnds txn p).mono (fun _ q ended => ?_) fun _ none => none.elim)
    obtain ⟨m, forgot, given⟩ := ended
    have own : Act.calmOwn (some txn) (.giveAll txn) := ⟨rfl, trivial⟩
    exact moved (fun _ => id) ((forgot.moves.mono fun _ => Act.forgetsCalm).trans (.one own given))

theorem callStays (housed : p.Housed) (call : PoolCall) (admitted : sharing.Admits call p) :
    Stays call.txn? (call.work p) p := by
  refine (callReaches housed call admitted).stays (fun _ => And.left) fun m _ q last => ?_
  obtain rfl | ⟨act, changes, move⟩ := last
  · exact .refl
  · exact .one (PoolCall.changesOwn changes) move

theorem lawOfCache (capacity : Nat) :
    sharing.Law (fun _ p => p.Sound ∧ p.capacity = capacity)
      (fun call => Moves (Act.byOwn call.txn?)) (fun call => Interlude call.txn?)
      (fun call p _ q => Moves (Act.byOwn call.txn?) p q) := by
  have kept {who : Option TxnId} {p q : Pool} (inv : p.Sound ∧ p.capacity = capacity)
      (moves : Moves (Act.byOwn who) p q) : q.Sound ∧ q.capacity = capacity :=
    ⟨inv.1.moves moves, moves.grew.capacity.trans inv.2⟩
  exact {
    works := fun call inv admitted => callStays inv.1.toHoused call admitted
    stops := fun _ inv moves => kept inv moves
    fails := fun _ _ inv moves => kept inv moves
    ends := fun _ _ inv moves => kept inv moves
    idle := fun _ inv => .refl inv.1.toHoused
    join := fun _ {_ _ _} first second => first.trans second
    aside := fun _ _ inv free moves => moves.interlude inv.1.toHoused free
    asideDone := fun _ _ _ inv free moves => moves.interlude inv.1.toHoused free }

theorem newSound (config : Config) (storage : Storage) (draws : List Nat) :
    Sound {ofConfig config storage with draws} where
  named := nofun
  sized := nofun
  bounded := Nat.zero_le _
  keeps := nofun
  faithful := nofun

/- Tables stay on volumes of their own. -/

/- The moves of a call, after which tables share volumes only if they did before. -/
def Parting (who : Option TxnId) (p q : Pool) : Prop :=
  Moves (Act.byOwn who) p q ∧ (p.Separate → q.Separate)

theorem callParting (housed : p.Housed) (call : PoolCall) (admitted : service.Admits call p) :
    (call.work p).Meets (Parting call.txn?) (Interlude call.txn?)
      (fun p _ q => Parting call.txn? p q) p := by
  have calm {act : Act} (own : act.calmOwn call.txn?) : ∀ file, act ≠ .register file := by
    rintro file rfl
    exact own.2
  have moved {p q : Pool} (moves : Moves (Act.calmOwn call.txn?) p q) : Parting call.txn? p q :=
    ⟨moves.mono fun _ => And.left, fun apart => apart.moves (fun _ own => calm own) moves⟩
  have reaches := callReaches housed call (admittedShared admitted)
  cases call with
  | register file =>
    refine Progress.meetsEnded (r := register file p) ?_
    rw [registerCases]
    split
    · exact ⟨.refl, id⟩
    · rename_i free
      have fresh : p.tables.get? file.table = none := by simpa [KeyMap.contains] using free
      have move : Move (.register file) p _ := .register fresh (admitted fresh).1
      have own : Act.byOwn none (.register file) := trivial
      exact ⟨.one own move, fun apart => apart.register (admitted fresh)⟩
  | _ =>
    refine Progress.Meets.mono reaches (fun _ _ => moved) (fun _ _ same => same)
      fun _ _ q ended => ?_
    obtain ⟨m, moves, rfl | ⟨act, changes, move⟩⟩ := ended
    · exact moved moves
    · have old : ∀ file, act ≠ .register file := by
        rintro file rfl
        exact changes
      refine ⟨(moves.mono fun _ => And.left).trans (.one (PoolCall.changesOwn changes) move),
        fun apart => ?_⟩
      exact ((moved moves).2 apart).move old move

theorem lawOfParting :
    service.Law (fun _ p => p.Housed ∧ p.Separate) (fun call => Parting call.txn?)
      (fun call => Interlude call.txn?) (fun call p _ q => Parting call.txn? p q) := by
  have kept {who : Option TxnId} {p q : Pool} (inv : p.Housed ∧ p.Separate)
      (parting : Parting who p q) : q.Housed ∧ q.Separate :=
    ⟨inv.1.moves parting.1, parting.2 inv.2⟩
  exact {
    works := fun call inv admitted => callParting inv.1 call admitted
    stops := fun _ inv parting => kept inv parting
    fails := fun _ _ inv parting => kept inv parting
    ends := fun _ _ inv parting => kept inv parting
    idle := fun _ inv => .refl inv.1
    join := fun _ {_ _ _} first second => first.trans second
    aside := fun _ _ inv free parting => parting.1.interlude inv.1 free
    asideDone := fun _ _ _ inv free parting => parting.1.interlude inv.1 free }

section run

variable {config : Config} {storage : Storage} {draws : List Nat}
  {h : History PoolCall Unit} {t : Traffic Pool PoolCall Unit}

theorem sharingSound (run : sharing.Run {ofConfig config storage with draws} h t) :
    t.state.Sound ∧ t.state.capacity = config.poolSize :=
  ((lawOfCache config.poolSize).run ⟨newSound config storage draws, rfl⟩ run).holds

theorem runShared (run : service.Run {ofConfig config storage with draws} h t) :
    sharing.Run {ofConfig config storage with draws} h t :=
  .wider service run fun _ _ => admittedShared

theorem runSeparate (run : service.Run {ofConfig config storage with draws} h t) :
    t.state.Separate :=
  (lawOfParting.run ⟨(newSound config storage draws).toHoused, nofun⟩ run).holds.2

end run

/-- However many calls have been made and whatever has become of them: the cache is not
over its bound; each page in it is kept under its own number, for a table of the pool that
has such a page; and if it is clean it is what its volume holds, as long as the pages of the
table can be counted in words. -/
theorem cacheKeepsRules {config : Config} {storage : Storage} {draws : List Nat}
    {h : History PoolCall Unit} {t : Traffic Pool PoolCall Unit}
    (run : service.Run {ofConfig config storage with draws} h t) :
    t.state.resident.size ≤ config.poolSize ∧
      ∀ page frame, t.state.resident.get? page = some frame → frame.page.id = page ∧
        ∃ file, t.state.tables.get? page.table = some file ∧
          page.number.toNat < t.state.storage.pages file.volume ∧
          (t.state.storage.pages file.volume < UInt32.size →
            page.number < t.state.storage.pageCount file.volume ∧
            (frame.page.isDirty = false →
              t.state.storage.image file.volume page.number = .ok frame.page.image)) := by
  obtain ⟨sound, capacity⟩ := sharingSound (runShared run)
  refine ⟨capacity ▸ sound.bounded, fun page frame present => ?_⟩
  obtain ⟨file, found, key, _, inside⟩ := sound.keeps page frame present
  refine ⟨key, file, found, inside, fun few => ⟨?_, fun clean => ?_⟩⟩
  · rw [UInt32.lt_iff_toNat_lt, Storage.pageCountPages, UInt32.toNat_ofNat', Nat.mod_eq_of_lt few]
    exact inside
  · have numbered : t.state.Numbered page.table := fun other same => by
      rw [found] at same
      exact Option.some.inj same ▸ few
    have held := sound.faithful (runSeparate run) page frame present
      (Option.isNone_iff_eq_none.mp (Option.isSome_eq_false_iff.mp clean)) numbered
    simp only [image?, found, Option.bind_some] at held
    exact Storage.imageIff.mpr held

/- A pool for one page at a time, over one volume of one page. -/

def sampleFile : HeapFile := ⟨1, ⟨8, 4, by decide, by decide⟩, 0⟩

def sampleStorage : Storage := ⟨.empty "", [⟨8, .memory [[0, 0, 0, 0, 0, 0, 0, 0]], [], [], []⟩]⟩

def sampleStart : Pool := {ofConfig {poolSize := 1} sampleStorage with draws := []}

def sampleRun : History PoolCall Unit × Traffic Pool PoolCall Unit :=
  service.next (.commit 1) (service.next (.insert 1 1 [7, 0, 0, 0])
    (service.next (.register sampleFile) ([], ⟨sampleStart, []⟩)))

theorem sampleKeepsRules : service.Run sampleStart sampleRun.1 sampleRun.2 ∧
    ∃ frame, sampleRun.2.state.resident.get? ⟨1, 0⟩ = some frame ∧
      sampleRun.2.state.storage.image 0 0 = .ok frame.page.image := by
  have fits : sampleStart.Fits sampleFile := ⟨rfl, nofun⟩
  have run : service.Run sampleStart sampleRun.1 sampleRun.2 :=
    .alone service (.alone service
      (.alone service .start (.register sampleFile) (fun _ => fits) rfl)
      (.insert 1 1 [7, 0, 0, 0]) trivial rfl) (.commit 1) trivial rfl
  refine ⟨run, ⟨0, ⟨⟨1, 0⟩, sampleFile.layout, [1, 7, 0, 0, 0, 0, 0, 0], none, rfl⟩⟩, rfl, ?_⟩
  obtain ⟨_, rules⟩ := cacheKeepsRules run
  obtain ⟨_, file, found, _, held⟩ := rules ⟨1, 0⟩ _ rfl
  cases found
  exact (held (by decide)).2 rfl

/- The same for a volume with as many pages as there are numbers. -/

def crowdedFile : HeapFile := ⟨1, ⟨2, 1, by decide, by decide⟩, 0⟩

def crowdedStart : Pool := {ofConfig {poolSize := 1} (.crowded 2) with draws := []}

def crowdedRun : History PoolCall Unit × Traffic Pool PoolCall Unit :=
  service.next (.peek ⟨1, 0⟩) (service.next (.register crowdedFile) ([], ⟨crowdedStart, []⟩))

/- A resident page whose number is not below the count of the pages. -/
theorem keptBeyondCount : service.Run crowdedStart crowdedRun.1 crowdedRun.2 ∧
    ∃ frame, crowdedRun.2.state.resident.get? ⟨1, 0⟩ = some frame ∧
      ¬ frame.page.id.number < crowdedRun.2.state.storage.pageCount crowdedFile.volume := by
  have fits : crowdedStart.Fits crowdedFile := ⟨rfl, nofun⟩
  have run : service.Run crowdedStart crowdedRun.1 crowdedRun.2 :=
    .alone service (.alone service .start (.register crowdedFile) (fun _ => fits) rfl)
      (.peek ⟨1, 0⟩) trivial rfl
  exact ⟨run, ⟨0, ⟨⟨1, 0⟩, crowdedFile.layout, [0, 0], none, rfl⟩⟩, rfl, by decide⟩

end Pool
end PagedHeap
