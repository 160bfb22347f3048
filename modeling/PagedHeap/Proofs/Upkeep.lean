import PagedHeap.Cursor
import PagedHeap.Proofs.CacheLaws
import PagedHeap.Proofs.Waits

/-! What no work on a pool breaks, whatever the pool is like and whatever becomes of the
calls of its volumes. A relation between the states before and after is kept by all work
if it is kept by the few things that work is made of: by changes of the cache, by steps
of the locks, and by the calls. -/
namespace PagedHeap

theorem Part.instantBind {ε σ τ α β : Type} (part : Part σ τ) (work : EStateM ε τ α)
    (next : α → EStateM ε τ β) :
    part.instant (work >>= next) = part.instant work >>= fun a => part.instant (next a) := by
  funext s
  simp only [Part.instant, bind, EStateM.bind]
  cases work (part.get s) with
  | error e t => rfl
  | ok a t =>
    simp only [Part.outcome, part.getSet]
    cases next a t <;> simp only [part.setSet]

namespace Storage

variable {keeps : Storage → Storage → Prop}

/- What the calls of a volume are made of keeps to the relation, calls to write left aside. -/
structure Upkeep (keeps : Storage → Storage → Prop) : Prop where
  logs : ∀ v call, (∀ page, call ≠ .write page) → Steps keeps (log v call)
  meets : ∀ v point page, Steps keeps (met v point page)
  grows : ∀ (s : Storage) v byte, keeps s (s.extend v (List.replicate (s.pageSize v) byte)).2

namespace Upkeep

variable [Std.Refl keeps] [Trans keeps keeps keeps]

theorem pass (up : Upkeep keeps) (v : VolumeId) (point : FaultPoint) (page : Option UInt32) :
    Steps keeps (pass v point page) :=
  (up.meets v point page).bind fun cause => by
    cases cause with
    | none => exact .returns _
    | some cause => exact .throws _

theorem count (up : Upkeep keeps) (v : VolumeId) : Steps keeps (count v) :=
  (up.pass v .count none).bind fun _ => Steps.gets.bind fun _ => .returns _

theorem read (up : Upkeep keeps) (v : VolumeId) (page : UInt32) (length : Nat) :
    Steps keeps (read v page length) :=
  (up.logs v _ (by simp)).bind fun _ => (up.pass v .read _).bind fun _ =>
    Steps.gets.bind fun _ => (Steps.asks _).bind fun _ => Steps.gets.bind fun _ => .serves _

theorem allocate (up : Upkeep keeps) (v : VolumeId) : Steps keeps (allocate v) := by
  have adds (full : Bool) : Steps keeps (get >>= fun s : Storage =>
      modifyGet (·.extend v (List.replicate (s.pageSize v) (if full then 255 else 0)))) :=
    fun s => up.grows s v _
  exact (up.logs v _ (by simp)).bind fun _ => (up.pass v .allocate none).bind fun _ =>
    (up.meets v .fill none).bind fun cause => adds cause.isSome

end Upkeep
end Storage

namespace Pool

variable {α β : Type} {who : Option TxnId} {txn : TxnId} {keeps : Pool → Pool → Prop}
  {below : Storage → Storage → Prop}

/- What work for somebody is made of keeps to the relation. Locks are asked for and given
back in his name; pages are not written. -/
structure Upkeep (who : Option TxnId) (keeps : Pool → Pool → Prop) : Prop where
  frames : ∀ (p : Pool) resident gone nextFrame draws,
    keeps p {p with resident, gone, nextFrame, draws}
  locks : ∀ (p : Pool) (step : LockStep), who = some step.txn →
    keeps p {p with locks := (p.locks.perform step).2}
  counts : ∀ v, Steps keeps (onStorage (Storage.count v))
  reads : ∀ v page length, Steps keeps (onStorage (Storage.read v page length))
  allocates : ∀ v, Steps keeps (onStorage (Storage.allocate v))

structure FullUpkeep (who : Option TxnId) (keeps : Pool → Pool → Prop) : Prop
    extends Upkeep who keeps where
  writes : ∀ v page image, Steps keeps (onStorage (Storage.write v page image))

/- What work with records does, each thing taken as a whole, keeps to the relation. -/
structure Pieces (who : Option TxnId) (keeps : Pool → Pool → Prop) : Prop where
  locks : ∀ (p : Pool) (step : LockStep), who = some step.txn →
    keeps p {p with locks := (p.locks.perform step).2}
  counts : ∀ v, Steps keeps (onStorage (Storage.count v))
  allocates : ∀ v, Steps keeps (onStorage (Storage.allocate v))
  fetch : ∀ page, Steps keeps (fetch page)
  write : ∀ frame, Steps keeps (write frame)
  pin : ∀ txn frame, Steps keeps (pin txn frame)

structure AllPieces (who : Option TxnId) (keeps : Pool → Pool → Prop) : Prop
    extends Pieces who keeps where
  draws : ∀ (p : Pool) draws, keeps p {p with draws}
  drop : ∀ (p : Pool) page, keeps p (p.drop page)
  flushPage : ∀ page, Steps keeps (flushPage page)

theorem AllPieces.join {other both : Pool → Pool → Prop} (pieces : AllPieces who keeps)
    (others : AllPieces who other) (follows : ∀ p q, keeps p q → other p q → both p q) :
    AllPieces who both where
  locks p step own := follows _ _ (pieces.locks p step own) (others.locks p step own)
  counts v := (pieces.counts v).join (others.counts v) follows
  allocates v := (pieces.allocates v).join (others.allocates v) follows
  fetch page := (pieces.fetch page).join (others.fetch page) follows
  write frame := (pieces.write frame).join (others.write frame) follows
  pin txn frame := (pieces.pin txn frame).join (others.pin txn frame) follows
  draws p draws := follows _ _ (pieces.draws p draws) (others.draws p draws)
  drop p page := follows _ _ (pieces.drop p page) (others.drop p page)
  flushPage page := (pieces.flushPage page).join (others.flushPage page) follows

/- What is kept below, by the volumes, is kept by the pool. -/

theorem risen {work : Instant Storage α}
    (rise : ∀ p storage, below p.storage storage → keeps p {p with storage})
    (steps : Steps below work) : Steps keeps (onStorage work) := fun p =>
  Ends.inPart ((steps p.storage).mono (fun _ _ => rise p _) fun _ => rise p _)

theorem Upkeep.ofStorage [Std.Refl below] [Trans below below below] (calls : Storage.Upkeep below)
    (rise : ∀ p storage, below p.storage storage → keeps p {p with storage})
    (frames : ∀ (p : Pool) resident gone nextFrame draws,
      keeps p {p with resident, gone, nextFrame, draws})
    (locks : ∀ (p : Pool) (step : LockStep), who = some step.txn →
      keeps p {p with locks := (p.locks.perform step).2}) : Upkeep who keeps where
  frames := frames
  locks := locks
  counts v := risen rise (calls.count v)
  reads v page length := risen rise (calls.read v page length)
  allocates v := risen rise (calls.allocate v)

theorem asideStorage (rise : ∀ (p : Pool) storage, keeps p {p with storage})
    (work : Instant Storage α) : Steps keeps (onStorage work) := fun p =>
  Ends.inPart (by cases work (storagePart.get p) <;> exact rise p _)

theorem FullUpkeep.ofAside (rise : ∀ (p : Pool) storage, keeps p {p with storage})
    (frames : ∀ (p : Pool) resident gone nextFrame draws,
      keeps p {p with resident, gone, nextFrame, draws})
    (locks : ∀ (p : Pool) (step : LockStep), who = some step.txn →
      keeps p {p with locks := (p.locks.perform step).2}) : FullUpkeep who keeps where
  frames := frames
  locks := locks
  counts _ := asideStorage rise _
  reads _ _ _ := asideStorage rise _
  allocates _ := asideStorage rise _
  writes _ _ _ := asideStorage rise _

theorem belowBind [Trans keeps keeps keeps] {work : Instant Storage α}
    {next : α → Instant Storage β} (first : Steps keeps (onStorage work))
    (rest : ∀ a, Steps keeps (onStorage (next a))) : Steps keeps (onStorage (work >>= next)) := by
  rw [onStorage, Part.instantBind]
  exact first.bind rest

namespace Upkeep

theorem update (up : Upkeep who keeps) (p : Pool) (f : Frame) : keeps p (p.update f) := by
  unfold Pool.update
  split
  · split
    · exact up.frames p ..
    · exact up.frames p ..
  · exact up.frames p ..

theorem write (up : Upkeep who keeps) (f : Frame) : Steps keeps (write f) := fun p => up.update p f

variable [Std.Refl keeps]

theorem drop (up : Upkeep who keeps) (p : Pool) (page : PageId) : keeps p (p.drop page) := by
  unfold Pool.drop
  split
  · exact up.frames p ..
  · exact Std.Refl.refl p

end Upkeep

namespace Pieces

variable [Std.Refl keeps]

/- Locks. -/

theorem lock (wanted : Lock) (pieces : Pieces (some wanted.txn) keeps) :
    Upholds keeps (lock wanted) := by
  intro p
  have asked (q : Pool) (yes : Bool) (locks : LockTable)
      (asked : q.locks.request wanted = (yes, locks)) : keeps q {q with locks} := by
    have taken := pieces.locks q (.request wanted) rfl
    simpa only [LockTable.perform, asked] using taken
  unfold Pool.lock
  cases now : p.locks.request wanted with
  | mk yes locks =>
    cases yes with
    | true =>
      rw [LockTable.acquireGranted now]
      exact asked p _ _ now
    | false =>
      rw [LockTable.acquireWaiting (by rw [now])]
      refine ⟨Std.Refl.refl p, fun q _ => ?_⟩
      cases again : q.locks.request wanted with
      | mk yes locks =>
        cases yes with
        | true =>
          simp only [LockTable.acquireGranted again]
          exact asked q _ _ again
        | false =>
          simp only [LockTable.acquireExpired (congrArg Prod.fst again)]
          exact Std.Refl.refl q

theorem releaseProbe (pieces : Pieces (some txn) keeps) (held : Bool) (page : PageId) :
    Steps keeps (releaseProbe held txn page) := by
  cases held with
  | true => exact .returns _
  | false => exact fun p => pieces.locks p (.release txn page) rfl

end Pieces

theorem belowAsks [Std.Refl keeps] (e : Except Misuse α) :
    Steps keeps (onStorage (demand Storage e)) := by
  cases e <;> exact fun p => Std.Refl.refl (r := keeps) p

variable [Std.Refl keeps] [Trans keeps keeps keeps]

theorem tableSteps (id : TableId) : Steps keeps (table id) := Steps.gets.bind fun _ => .asks _

namespace Upkeep

/- The cache. -/

theorem place (up : Upkeep who keeps) (p : Pool) (f : Frame) : keeps p (p.place f) := by
  unfold Pool.place bring
  split
  · split
    · exact up.update p f
    · exact Trans.trans (up.drop p f.page.id) (up.frames ..)
  · exact up.frames p ..

/- A page that has to leave is not changed, so making room writes nothing. -/
theorem makeRoom (up : Upkeep who keeps) : Steps keeps makeRoom := by
  have evicts : Steps keeps evict := fun p => by
    cases found : p.victims with
    | nil =>
      unfold evict
      rw [getThen, found]
      exact Std.Refl.refl p
    | cons first rest =>
      obtain ⟨page, _, _, _, left⟩ := evictChosen found
      rw [left]
      have drawn := up.frames p p.resident p.gone p.nextFrame p.draws.tail
      have left := up.drop {p with draws := p.draws.tail} page
      exact show keeps p _ from Trans.trans drawn left
  refine Steps.gets.bind fun p => ?_
  split
  · exact evicts
  · exact .returns _

theorem fetch (up : Upkeep who keeps) (page : PageId) : Steps keeps (fetch page) := by
  refine Steps.gets.bind fun p => ?_
  split
  · exact .returns _
  · have reads (file : HeapFile) : Steps keeps (onStorage (file.readPage page)) :=
      belowBind (belowAsks _) fun _ => belowBind (up.reads _ _ _) fun _ => belowAsks _
    have frames (copy : Page) : Steps keeps (newFrame copy) := fun p => up.frames p ..
    have enters (frame : Frame) : Steps keeps
        (modify fun p => {p with resident := p.resident.insert page frame}) :=
      fun p => up.frames p ..
    exact up.makeRoom.bind fun _ => (tableSteps _).bind fun file => (reads file).bind fun copy =>
      (frames copy).bind fun frame => (enters frame).bind fun _ => .returns _

theorem pin (up : Upkeep who keeps) (txn : TxnId) (f : Frame) : Steps keeps (pin txn f) := by
  have places (f : Frame) : Steps keeps (modify (·.place f)) := fun p => up.place p f
  refine Steps.gets.bind fun p => (up.write _).bind fun _ => Steps.bind ?_ fun _ => places _
  refine Steps.gets.bind fun p => ?_
  split
  · exact .returns _
  · exact up.makeRoom

end Upkeep

theorem Upkeep.pieces (up : Upkeep who keeps) : Pieces who keeps :=
  ⟨up.locks, up.counts, up.allocates, up.fetch, up.write, up.pin⟩

theorem FullUpkeep.flushPage (up : FullUpkeep who keeps) (page : PageId) :
    Steps keeps (flushPage page) := by
  have writes (file : HeapFile) (copy : Page) : Steps keeps (onStorage (file.writePage copy)) :=
    belowBind (belowAsks _) fun _ => up.writes _ _ _
  refine Steps.gets.bind fun p => ?_
  split
  · exact .returns _
  · split
    · exact (tableSteps _).bind fun file => (writes file _).bind fun _ => up.write _
    · exact .returns _

theorem FullUpkeep.pieces (up : FullUpkeep who keeps) : AllPieces who keeps :=
  ⟨up.toUpkeep.pieces, fun p => up.frames p p.resident p.gone p.nextFrame, up.toUpkeep.drop,
    up.flushPage⟩

namespace Pieces

theorem getPage (pieces : Pieces (some txn) keeps) (page : PageId) (access : Access) :
    Upholds keeps (getPage txn page access) :=
  .bind (lock ⟨txn, page, access⟩ pieces) fun _ => .lift (pieces.fetch page)

/- Records. -/

theorem firstWithRoom (pieces : Pieces (some txn) keeps) (file : HeapFile)
    (numbers : List UInt32) :
    Upholds keeps (file.firstWithRoom txn numbers) := by
  induction numbers with
  | nil => exact .returns _
  | cons number rest ih =>
    refine .bind (.lift (Steps.gets.bind fun _ => .returns _)) fun held =>
      (pieces.getPage _ .shared).bind fun frame => ?_
    split
    · exact .returns _
    · exact .bind (.lift (pieces.releaseProbe held _)) fun _ => ih

theorem pageWithRoom (pieces : Pieces (some txn) keeps) (file : HeapFile) :
    Upholds keeps (file.pageWithRoom txn) := by
  refine .bind (.lift (pieces.counts _)) fun count =>
    (pieces.firstWithRoom file _).bind fun page? => ?_
  cases page? with
  | some page => exact .returns _
  | none =>
    have returns (number : UInt32) :
        Steps keeps (onStorage (pure (⟨file.table, number⟩ : PageId))) :=
      fun p => Std.Refl.refl (r := keeps) p
    exact .lift (belowBind (pieces.allocates _) returns)

theorem fill (pieces : Pieces who keeps) (txn : TxnId) (data : Bytes) (frame : Frame) :
    Steps keeps (HeapFile.fill txn data frame) :=
  (Steps.asks _).bind fun _ => (pieces.write _).bind fun _ => .returns _

theorem insertWithin (pieces : Pieces (some txn) keeps) (file : HeapFile) (data : Bytes)
    (tries : Nat) :
    Upholds keeps (file.insertWithin txn data tries) := by
  induction tries with
  | zero => exact fun p => Std.Refl.refl (r := keeps) p
  | succ tries ih =>
    refine (pieces.pageWithRoom file).bind fun home =>
      (pieces.getPage home .exclusive).bind fun frame => ?_
    split
    · exact .lift (pieces.fill txn data frame)
    · exact ih

theorem tableInsert (pieces : Pieces (some txn) keeps) (file : HeapFile) (data : Bytes) :
    Upholds keeps (file.insert txn data) :=
  .bind (.lift (.asks _)) fun _ => pieces.insertWithin file data _

theorem tableDelete (pieces : Pieces (some txn) keeps) (file : HeapFile) (rid : Option Rid) :
    Upholds keeps (file.delete txn rid) := by
  have clears (rid : Rid) (frame : Frame) : Steps keeps (HeapFile.clear txn rid frame) :=
    (Steps.asks _).bind fun _ => (pieces.write _).bind fun _ => .returns _
  exact .bind (.lift (.asks _)) fun rid => .bind (.lift (.asks _)) fun _ =>
    .bind (.lift (pieces.counts _)) fun count => .bind (.lift (.asks _)) fun _ =>
      (pieces.getPage rid.page .exclusive).bind fun frame => .lift (clears rid frame)

theorem insert (pieces : Pieces (some txn) keeps) (table : TableId) (data : Bytes) :
    Upholds keeps (insert txn table data) :=
  .bind (.lift (tableSteps table)) fun file => (pieces.tableInsert file data).bind fun x =>
    .bind (.lift (pieces.pin txn x.2)) fun _ => .returns _

theorem delete (pieces : Pieces (some txn) keeps) (rid : Option Rid) :
    Upholds keeps (delete txn rid) :=
  .bind (.lift (.asks _)) fun place => .bind (.lift (tableSteps _)) fun file =>
    (pieces.tableDelete file (some place)).bind fun frame => .lift (pieces.pin txn frame)

theorem scan (pieces : Pieces who keeps) (file : HeapFile) : Upholds keeps (file.scan who) := by
  have visits (number : UInt32) : Upholds keeps (file.visit who number) := by
    refine .bind (.lift (pieces.counts _)) fun count => ?_
    split
    · exact .returns _
    · cases who with
      | some txn => exact (pieces.getPage _ .shared).map _
      | none => exact .map (.lift (pieces.fetch _)) _
  have walks (left : Nat) (number : UInt32) : Upholds keeps (file.walk who left number) := by
    induction left generalizing number with
    | zero => exact .returns _
    | succ left ih =>
      refine (visits number).bind fun frame? => ?_
      cases frame? with
      | none => exact .returns _
      | some frame => exact (ih (number + 1)).bind fun _ => .returns _
  exact walks UInt32.size 0

end Pieces

namespace AllPieces

theorem dropAll (pieces : AllPieces who keeps) (pages : List PageId) (p : Pool) :
    keeps p (pages.foldl Pool.drop p) := by
  induction pages generalizing p with
  | nil => exact Std.Refl.refl p
  | cons page rest ih => exact Trans.trans (pieces.drop p page) (ih _)

theorem abort (pieces : AllPieces (some txn) keeps) : Steps keeps (abort txn) := fun p => by
  have dropped := pieces.dropAll (p.locks.ownedBy txn) p
  exact show keeps p _ from Trans.trans dropped (pieces.locks _ (.releaseAll txn) rfl)

theorem flushAll (pieces : AllPieces who keeps) : Steps keeps flushAll := by
  have drawn : Steps keeps draw := fun p => pieces.draws p _
  exact drawn.bind fun _ => Steps.gets.bind fun _ => .forEach pieces.flushPage _

theorem flushOwned (pieces : AllPieces who keeps) (txn : TxnId) : Steps keeps (flushOwned txn) :=
  Steps.gets.bind fun _ => .forEach pieces.flushPage _

theorem commit (pieces : AllPieces (some txn) keeps) : Steps keeps (commit txn) :=
  (pieces.flushOwned txn).bind fun _ p => pieces.locks p (.releaseAll txn) rfl

theorem call (call : PoolCall) (pieces : AllPieces call.txn? keeps) (p : Pool)
    (registers : ∀ file, call = .register file →
      Ends (fun _ q => keeps p q) (keeps p) (register file p)) :
    (call.work p).Meets keeps (fun _ _ => True) (fun p _ q => keeps p q) p := by
  have upholds (old : ∀ file, call ≠ .register file) : Upholds keeps call.work := by
    cases call with
    | register file => exact (old file rfl).elim
    | get txn page access => exact .bind (pieces.getPage page access) fun _ => .returns _
    | peek page => exact .bind (.lift (pieces.fetch page)) fun _ => .returns _
    | release txn page => exact .lift fun p => pieces.locks p (.release txn page) rfl
    | insert txn table data => exact .bind (pieces.insert table data) fun _ => .returns _
    | delete txn rid => exact pieces.delete rid
    | flush txn => exact .lift (pieces.flushOwned txn)
    | flushAll => exact .lift pieces.flushAll
    | discard page => exact .lift fun p => pieces.drop p page
    | commit txn => exact .lift pieces.commit
    | abort txn => exact .lift pieces.abort
  by_cases new : ∃ file, call = .register file
  · obtain ⟨file, rfl⟩ := new
    exact Progress.meetsEnded (registers file rfl)
  · exact upholds (fun file same => new ⟨file, same⟩) p

end AllPieces
end Pool
end PagedHeap
