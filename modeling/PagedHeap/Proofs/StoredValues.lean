import PagedHeap.Proofs.Autocommit
import PagedHeap.Proofs.Pinning
import PagedHeap.Proofs.SharedShells
import PagedHeap.Proofs.Spellings

/-! Values all the way down and up again. What the words of a line spell is what the record at the
place that the line answers has for values, whoever else uses the engine, and whether the insert
was committed at once or is part of an open transaction. -/
namespace PagedHeap

namespace Bytes

/- Bytes of which the first have all their bits on, and the others off. -/

def marked (first rest : Nat) : Bytes := List.replicate first 255 ++ List.replicate rest 0

theorem markedLength (first rest : Nat) : (marked first rest).length = first + rest := by
  simp only [marked, List.length_append, List.length_replicate]

theorem testMarked (first rest bit : Nat) :
    Bits.test (marked first rest) bit = decide (bit / 8 < first) := by
  have on : ∀ i < 8, Bits.testByte 255 i = true := by decide
  have off : ∀ i < 8, Bits.testByte 0 i = false := by decide
  have low : bit % 8 < 8 := Nat.mod_lt _ (by decide)
  unfold Bits.test marked
  by_cases inside : bit / 8 < first
  · rw [List.getElem?_append_left (by rwa [List.length_replicate]), List.getElem?_replicate,
      if_pos inside]
    simp only [on _ low, inside, decide_true]
  · rw [List.getElem?_append_right (by rw [List.length_replicate]; exact Nat.le_of_not_lt inside),
      List.getElem?_replicate]
    split
    · rename_i byte there
      split at there
      · obtain rfl := Option.some.inj there
        simp only [off _ low, inside, decide_false]
      · cases there
    · simp only [inside, decide_false]

theorem sliceMarked {first rest offset length : Nat} (behind : first ≤ offset)
    (inside : offset + length ≤ first + rest) :
    slice (marked first rest) offset length = List.replicate length 0 := by
  unfold slice marked
  rw [List.drop_append, List.drop_of_length_le (by rwa [List.length_replicate]), List.nil_append,
    List.length_replicate, List.drop_replicate, List.take_replicate,
    Nat.min_eq_left (by omega)]

end Bytes

theorem Page.insertWraps {p q : Page} {data : Bytes} {rid : Rid}
    (taken : ∀ s < UInt32.size, p.isUsed s = true) (free : p.isUsed UInt32.size = false)
    (filled : p.insert data = .ok (rid, q)) : rid.slot = 0 ∧ q.get? 0 = p.get? 0 := by
  obtain ⟨slot, rfl, inserted⟩ := insertSource filled
  obtain rfl : slot = UInt32.size := by
    rcases Nat.lt_trichotomy slot UInt32.size with before | same | behind
    · exact absurd ((taken slot before).symm.trans inserted.free) nofun
    · exact same
    · exact absurd ((inserted.least _ behind).symm.trans free) nofun
  have first : p.isUsed 0 = true := taken 0 (by decide)
  refine ⟨rfl, ?_⟩
  simp only [get?, inserted.used, first, inserted.sameId,
    inserted.others 0 (usedInRange first) (by decide), ite_self]

namespace Pool

variable {p q : Pool} {txn : TxnId} {rid : Rid} {data : Bytes}

def Stores (p : Pool) (rid : Rid) (data : Bytes) : Prop :=
  ∃ frame, p.resident.get? rid.page = some frame ∧ Carries frame.page rid data

def KeepsCopies (p q : Pool) : Prop :=
  p.Keyed → q.Keyed ∧ ∀ page frame, p.resident.get? page = some frame →
    ∃ copy, q.resident.get? page = some copy ∧ copy.page.markClean = frame.page.markClean

instance : Std.Refl KeepsCopies := ⟨fun _ keyed => ⟨keyed, fun _ frame there =>
  ⟨frame, there, rfl⟩⟩⟩

instance : Trans KeepsCopies KeepsCopies KeepsCopies := ⟨fun first second keyed => by
  obtain ⟨between, early⟩ := first keyed
  obtain ⟨after, late⟩ := second between
  refine ⟨after, fun page frame there => ?_⟩
  obtain ⟨copy, here, same⟩ := early page frame there
  obtain ⟨other, later, alike⟩ := late page copy here
  exact ⟨other, later, alike.trans same⟩⟩

namespace KeepsCopies

theorem same (resident : q.resident = p.resident) : KeepsCopies p q := fun keyed =>
  ⟨KeepsKeyed.same resident keyed, fun _ frame there => ⟨frame, resident ▸ there, rfl⟩⟩

theorem stores (copies : KeepsCopies p q) (keyed : p.Keyed) (stores : p.Stores rid data) :
    q.Stores rid data := by
  obtain ⟨frame, there, carries⟩ := stores
  obtain ⟨copy, here, alike⟩ := (copies keyed).2 _ _ there
  have marked (page : Page) : Carries page rid data ↔ Carries page.markClean rid data := .rfl
  exact ⟨copy, here, (marked _).mpr (alike ▸ (marked _).mp carries)⟩

theorem clean {page : PageId} {frame cleaned : Frame} (present : p.resident.get? page = some frame)
    (unmarked : cleaned.page = frame.page.markClean)
    (resident : q.resident = p.resident.insert page cleaned) : KeepsCopies p q := fun keyed => by
  have key : cleaned.page.id = page := unmarked ▸ keyed page frame present
  refine ⟨KeepsKeyed.put key resident keyed, fun other found there => ?_⟩
  rw [resident, KeyMap.getInsert]
  split
  · rename_i same
    subst same
    cases present.symm.trans there
    refine ⟨cleaned, rfl, ?_⟩
    rw [unmarked]
    rfl
  · exact ⟨found, there, rfl⟩

theorem flush (page : PageId) : Steps KeepsCopies (flushPage page) := fun p => by
  have still : KeepsCopies p p := Std.Refl.refl p
  cases present : p.resident.get? page with
  | none =>
    rw [flushAbsent present]
    exact still
  | some frame =>
    cases dirty : frame.page.isDirty with
    | false =>
      rw [flushClean present dirty]
      exact still
    | true =>
      unfold flushPage
      rw [getThen]
      simp only [present, dirty, if_true]
      refine (tableEnds p frame.page.id.table).andThen (fun file q found => ?_)
        (fun _ lost => lost.1 ▸ still)
      obtain ⟨rfl, _⟩ := found
      have wrote : Ends (fun _ r => r.resident = q.resident) (fun r => r.resident = q.resident)
          (onStorage (file.writePage frame.page) q) :=
        Ends.inPart (by cases file.writePage frame.page (storagePart.get q) <;> exact rfl)
      refine wrote.andThen (fun _ r kept => ?_) (fun _ kept => .same kept)
      intro keyed
      have there : r.resident.get? page = some frame := kept ▸ present
      let unmarked : Frame := {frame with page := frame.page.markClean}
      have written : r.update unmarked = {r with resident := r.resident.insert page unmarked} :=
        writeOver there rfl (keyed page frame present)
      have entered : (r.update unmarked).resident = q.resident.insert page unmarked := by
        rw [written, kept]
      exact clean present rfl entered keyed

theorem commit (txn : TxnId) : Steps KeepsCopies (commit txn) := by
  have gives : Steps KeepsCopies (releaseAll txn) := fun _ => .same rfl
  exact (Steps.gets.bind fun _ => .forEach flush _).bind fun _ => gives

end KeepsCopies

theorem insertKept (filed : p.Filed) (txn : TxnId) (table : TableId) (data : Bytes) :
    Ends (fun rid q => q.Filed ∧ rid.page.table = table ∧ q.Stores rid data) (fun _ => True)
      ((insert txn table data).settled p) := by
  have kept := ((filedPieces (some txn)).insert table data).settled p
  cases found : p.tables.get? table with
  | none =>
    simp only [insert, Activity.settledBind, Activity.settledLift]
    rw [errorThen (tableMissing found)]
    trivial
  | some file =>
    rw [insertAsTable filed found] at kept ⊢
    have taken := insertTakes filed file txn data
    cases done : (file.insert txn data).settled p with
    | error cause q =>
      rw [errorThen done]
      trivial
    | ok x q =>
      rw [done] at taken
      rw [okThen done] at kept ⊢
      obtain ⟨fixed, home, own, carries⟩ := taken
      exact ⟨kept filed, own.trans (filed.named table file found), x.2,
        home ▸ fixed.resident, carries⟩

end Pool

namespace Engine

variable {e : Engine}

theorem insertKept (filed : e.pool.Filed) (txn : TxnId) (table : TableId)
    (values : List Int32) :
    Ends (fun rid e' => e'.pool.Filed ∧ rid.page.table = table ∧
        e'.pool.Stores rid (Record.ofValues values).data) (fun _ => True)
      ((insert txn table values).settled e) := by
  unfold insert
  rw [Activity.settledWithin]
  exact Ends.inPart (Pool.insertKept filed txn table _)

theorem commitKept (filed : e.pool.Filed) {rid : Rid} {data : Bytes}
    (stores : e.pool.Stores rid data) (txn : TxnId) :
    Ends (fun _ e' => e'.pool.Stores rid data) (fun _ => True) (commit txn e) := by
  have kept : Ends (fun _ q => Pool.KeepsCopies e.pool q) (Pool.KeepsCopies e.pool)
      (Pool.commit txn e.pool) := Pool.KeepsCopies.commit txn e.pool
  exact (finishEnds kept).mono (fun _ _ ended => ended.2.1.stores filed.keyed stores)
    (fun _ _ => trivial)

end Engine

theorem TellsInsert.means {line : String} {values : List Int32} (tells : TellsInsert line values)
    {fields : Nat} (count : values.length = fields) :
    Shell.means fields line (.insert values) = true := by
  unfold Shell.means
  rw [tells.read, if_pos count]
  exact decide_eq_true rfl

namespace Shell

open Engine (Use unguarded)

variable {α : Type} {s t : Shell} {txn : TxnId} {line : String} {values : List Int32}
  {waiting : List (Waiting Engine Use Unit)}

theorem engineYields {work : Instant Engine α} {done : α → Shell → Prop}
    (ends : Ends (fun a e => done a {s with engine := e}) (fun _ => True) (work s.engine)) :
    Yields done (fun _ _ => True) (onEngine work s) :=
  .ofEngine (ends.mono (fun _ _ told => told) (fun _ _ _ => trivial))

theorem giveUpFails {done : α → Shell → Prop} (cause : Error) :
    Yields done (fun _ _ => True) (giveUp txn cause s) := by
  have any : Yields (fun _ _ => True) (fun _ _ => True) (onEngine (Engine.abort txn) s) :=
    (Yields.engine _ s).mono (fun _ _ _ => trivial) (fun _ _ _ => trivial)
  exact any.andThen (fun _ _ _ => trivial) (fun _ _ _ => trivial)

/- The record is where the answer says, in a page of the table. -/
def Places (table : TableId) (values : List Int32) (rid : Rid) (t : Shell) : Prop :=
  rid.page.table = table ∧ t.engine.pool.Stores rid (Record.ofValues values).data

theorem attemptPlaces (filed : s.engine.pool.Filed) (txn : TxnId) (table : TableId)
    (values : List Int32) :
    Yields (fun answer t => ∀ rid, answer = .ok rid →
        t.engine.pool.Filed ∧ Places table values rid t) (fun _ _ => True)
      (onEngine (Engine.insert txn table values).attempt.settled s) := by
  have stored := (Engine.insertKept filed txn table values).attempt
  refine engineYields (stored.mono (fun answer e told => ?_) (fun _ none => none.elim))
  intro rid same
  subst same
  exact told

theorem transactionPlaces (filed : s.engine.pool.Filed) (table : TableId) (values : List Int32) :
    Yields (fun rid t => Places table values rid t) (fun _ _ => True)
      (inTransaction (Engine.insert · table values) s) := by
  unfold inTransaction
  rw [getThen]
  cases s.current with
  | some txn =>
    refine (attemptPlaces filed txn table values).andThen (fun answer t worked => ?_)
      (fun _ _ _ => trivial)
    cases answer with
    | ok rid => exact (worked rid rfl).2
    | error cause =>
      change Yields _ _ ((if cause.isAborted then giveUp txn cause else throw (.engine cause)) t)
      split
      · exact giveUpFails cause
      · trivial
  | none =>
    have begun : Yields (fun _ t => t.engine.pool.Filed) (fun _ _ => True)
        (onEngine Engine.begin s) := engineYields filed
    refine begun.andThen (fun txn t filed => ?_) (fun _ _ _ => trivial)
    refine (attemptPlaces filed txn table values).andThen (fun answer u worked => ?_)
      (fun _ _ _ => trivial)
    cases answer with
    | ok rid =>
      obtain ⟨filed, own, stores⟩ := worked rid rfl
      have committed : Yields (fun _ t => t.engine.pool.Stores rid _) (fun _ _ => True)
        (onEngine (Engine.commit txn) u) := engineYields (Engine.commitKept filed stores txn)
      exact committed.andThen (fun _ _ stored => ⟨own, stored⟩) (fun _ _ _ => trivial)
    | error cause => exact giveUpFails cause

theorem executeAsked (told : means s.fields line (.insert values) = true) :
    execute line s = worded
      (fun rid => .text s!"INSERT page {rid.page.number.toNat} slot {rid.slot.toNat}")
      (inTransaction (Engine.insert · s.table values) s) := by
  rw [executeSaid told, ← bindWorded]
  rfl

theorem insertPlaces (filed : s.engine.pool.Filed)
    (told : means s.fields line (.insert values) = true) {reply : Reply}
    (done : execute line s = .ok reply t) : ∃ rid,
      reply = .text s!"INSERT page {rid.page.number.toNat} slot {rid.slot.toNat}" ∧
      Places s.table values rid t := by
  have placed := transactionPlaces filed s.table values
  rw [executeAsked told] at done
  cases worked : inTransaction (Engine.insert · s.table values) s with
  | error cause u =>
    rw [worked] at done
    cases done
  | ok rid u =>
    rw [worked] at placed done
    cases done
    exact ⟨rid, rfl, placed⟩

/-- Values survive the whole stack, whatever has become of the shell and its engine before. A line
that tells to insert as many values as there are fields, however they are spelled, and is answered,
names a page and a slot: whoever asks the pool for the page finds the record there, in the very
slot if the slots of a page have numbers of their own, and its values are those of the line. Values
are read back from a record that is made of them, four bytes each, and bytes that are read as
values are what the values are stored as, but for a rest that is no whole value. -/
theorem valuesReadBack (shared : Shared s waiting) (tells : TellsInsert line values)
    (count : values.length = s.fields) :
    (∀ reply t, execute line s = .ok reply t → ∃ rid frame slot record,
      reply = .text s!"INSERT page {rid.page.number.toNat} slot {rid.slot.toNat}" ∧
      rid.page.table = s.table ∧
      Pool.fetch rid.page t.engine.pool = .ok frame t.engine.pool ∧
      frame.page.get? slot = some record ∧ record.rid = some rid ∧ record.values = values ∧
      (frame.page.slots ≤ UInt32.size → slot = rid.slot.toNat)) ∧
    (∀ vs, (Record.ofValues vs).values = vs ∧ (Record.ofValues vs).width = 4 * vs.length) ∧
    ∀ r : Record, (Record.ofValues r.values).data = r.data.take (r.width / 4 * 4) := by
  refine ⟨fun reply t done => ?_, fun vs => ⟨Record.valuesOfValues vs, ?_⟩,
    fun r => Field.encodeDecodeAll r.data⟩
  · obtain ⟨rid, answer, own, frame, there, slot, named, inside, found⟩ :=
      insertPlaces shared.filed (tells.means count) done
    refine ⟨rid, frame, slot, _, answer, own, Pool.fetchPresent there, found, rfl,
      Record.valuesOfValues values, fun few => ?_⟩
    rw [named, UInt32.toNat_ofNat_of_lt' (Nat.lt_of_lt_of_le inside few)]
  · rw [Record.widthOfValues, Nat.mul_comm]
    rfl

/- A table of two fields with two places on a page, of which the first is taken. -/

def sampleWide : Shell :=
  ofEngine ⟨{pageSize := 17, poolSize := 1}, {Pool.ofConfig {poolSize := 1}
    ⟨.empty "", [⟨17, .memory [List.replicate 17 0], [], [], []⟩]⟩ with draws := []}, .empty, 1⟩ 1 2

def sampleWideFile : HeapFile := ⟨1, ⟨17, 8, by decide, by decide⟩, 0⟩

def sampleWideNext : History Use Unit × Traffic Engine Use Unit :=
  unguarded.next (.pool (.call (.register sampleWideFile))) ([], ⟨sampleWide.engine, []⟩)

def sampleWideOpen : Shell := {sampleWide with engine := sampleWideNext.2.state}

def sampleWideReady : Shell := sampleWideOpen.after "insert 0 -1"

def sampleWideLine : String := "\tinsert  -2147483648\u00A0+02147483647 "

theorem sampleWideTells : TellsInsert sampleWideLine [-2147483648, 2147483647] := by
  have blanks (gap : List Char) (all : gap.all isBlank = true) : Blanks gap :=
    List.all_eq_true.mp all
  have digits (cs : List Char) (some : cs ≠ []) (all : cs.all Char.isDigit = true) :
      Digits cs (Nat.ofDigitChars 10 cs 0) := ⟨some, List.all_eq_true.mp all, rfl⟩
  have low : Spells "-2147483648".toList (-2147483648 : Int32).toInt := by
    have number := Spells.usual (-2147483648)
    rwa [show toString (-2147483648 : Int) = "-2147483648" by decide] at number
  have high : Spells "+02147483647".toList (2147483647 : Int32).toInt := by
    have number := Spells.plus (digits "02147483647".toList (by decide) (by decide))
    rwa [show Nat.ofDigitChars 10 "02147483647".toList 0 = 2147483647 by decide] at number
  have last : SpellsAll [' '] [] := .nil (blanks _ (by decide))
  have second : SpellsAll (['\u00A0'] ++ ("+02147483647".toList ++ [' '])) [2147483647] :=
    .cons (by decide) (blanks _ (by decide)) high last
  exact ⟨['\t'], _, blanks _ (by decide), by decide,
    .cons (List.cons_ne_nil ' ' [' ']) (blanks _ (by decide)) low second⟩

theorem sampleWideShared : Shared sampleWideReady [] := by
  have fresh : sampleWide.engine.pool = {Pool.ofConfig {poolSize := 1}
    ⟨.empty "", [⟨17, .memory [List.replicate 17 0], [], [], []⟩]⟩ with draws := []} := rfl
  have idle : sampleWideNext.2.waiting = [] := rfl
  have step : unguarded.Step ([], ⟨sampleWide.engine, []⟩) sampleWideNext :=
    .alone unguarded (.pool (.call (.register sampleWideFile))) trivial rfl
  have opened : Shared sampleWideOpen [] := idle ▸ Shared.others (.new fresh) step
  exact opened.line "insert 0 -1"

theorem sampleReadBack : Shared sampleWideReady [] ∧
    TellsInsert sampleWideLine [-2147483648, 2147483647] ∧
    [(-2147483648 : Int32), 2147483647].length = sampleWideReady.fields ∧
    ∃ t, ∃ rid : Rid, ∃ frame slot record,
      execute sampleWideLine sampleWideReady = .ok (.text "INSERT page 0 slot 1") t ∧
      Pool.fetch rid.page t.engine.pool = .ok frame t.engine.pool ∧
      frame.page.get? slot = some record ∧ record.values = [-2147483648, 2147483647] := by
  have count : [(-2147483648 : Int32), 2147483647].length = sampleWideReady.fields := by
    decide +kernel
  have answered : sampleWideReady.answer sampleWideLine = .ok (.text "INSERT page 0 slot 1") := by
    decide +kernel
  obtain ⟨reads, -⟩ := valuesReadBack sampleWideShared sampleWideTells count
  unfold answer at answered
  cases done : execute sampleWideLine sampleWideReady with
  | error cause t =>
    rw [done] at answered
    cases answered
  | ok reply t =>
    rw [done] at answered
    obtain ⟨rid, frame, slot, record, -, -, fetched, found, -, same, -⟩ := reads _ t done
    obtain rfl := Except.ok.inj answered
    exact ⟨sampleWideShared, sampleWideTells, count, t, rid, frame, slot, record, rfl, fetched,
      found, same⟩

/- A page of more slots than there are numbers for slots. All that have a number are taken, by
records of zeroes. -/

def vastFile : HeapFile := {Pool.sampleFile with
  layout := {Pool.sampleFile.layout with pageSize := 17716740129, holdsOne := by decide}}

def vastVolume : Storage :=
  ⟨(Directory.empty "").put "t" [⟨536870912, 255⟩, ⟨17179869217, 0⟩],
    [⟨17716740129, .file "t", [], [], []⟩]⟩

def vast : Shell :=
  ofEngine ⟨{pageSize := 17716740129, poolSize := 1}, {Pool.ofConfig {poolSize := 1} vastVolume with
    draws := []}, .empty, 1⟩ 1 1

def vastNext : History Use Unit × Traffic Engine Use Unit :=
  unguarded.next (.pool (.call (.register vastFile))) ([], ⟨vast.engine, []⟩)

def vastOpen : Shell := {vast with engine := vastNext.2.state}

def vastReady : Shell := vastOpen.after "begin"

theorem vastShared : Shared vastReady [] := by
  have fresh : vast.engine.pool = {Pool.ofConfig {poolSize := 1} vastVolume with draws := []} := rfl
  have idle : vastNext.2.waiting = [] := rfl
  have step : unguarded.Step ([], ⟨vast.engine, []⟩) vastNext :=
    .alone unguarded (.pool (.call (.register vastFile))) trivial rfl
  have opened : Shared vastOpen [] := idle ▸ Shared.others (.new fresh) step
  exact opened.line "begin"

theorem vastBegun : vastReady = {vastOpen with
    current := some 1
    engine := {vastOpen.engine with ledger := vastOpen.engine.ledger.begin.2}} := by
  unfold vastReady after
  rw [executeSaid (show means vastOpen.fields "begin" .begin = true by decide)]
  rfl

theorem vastTells : TellsInsert "insert 9" [9] := by
  have number : Spells "9".toList (9 : Int32).toInt := by
    have number := Spells.usual 9
    rwa [show toString (9 : Int) = "9" by decide] at number
  have behind : SpellsAll (" ".toList ++ ("9".toList ++ [])) [9] :=
    .cons (by decide) (List.all_eq_true.mp (by decide)) number (.nil nofun)
  exact ⟨[], _, nofun, by decide, behind⟩

theorem vastImage {n : Nat} {image : Bytes} (held : vastVolume.page? 0 n = some image) :
    image = Bytes.marked 536870912 17179869217 := by
  have bytes : vastVolume.directory.bytes "t" = Bytes.marked 536870912 17179869217 :=
    congrArg (_ ++ ·) (List.append_nil _)
  obtain ⟨whole, rfl⟩ : (Bytes.slice (vastVolume.directory.bytes "t") (n * 17716740129)
      17716740129).length = 17716740129 ∧
      Bytes.slice (vastVolume.directory.bytes "t") (n * 17716740129) 17716740129 = image :=
    (Option.ite_none_right_eq_some.mp held).imp_right Option.some.inj
  have size : (Bytes.marked 536870912 17179869217).length = 17716740129 := Bytes.markedLength _ _
  rw [bytes] at whole ⊢
  rw [Bytes.slice, List.length_take, List.length_drop, size] at whole
  obtain rfl : n = 0 := by omega
  rw [Bytes.slice, Nat.zero_mul, List.drop_zero, List.take_of_length_le (Nat.le_of_eq size)]

theorem vastPages : vastVolume.pages 0 = 1 := rfl

theorem vastUnowned : vastReady.engine.pool.Unowned := by
  have alone : Pool.Unowned {Pool.ofConfig {poolSize := 1} vastVolume with
      draws := [], tables := KeyMap.empty.insert 1 vastFile} :=
    Pool.unownedAlone [] vastFile rfl (by decide) (fun _ => Storage.sparesAll rfl rfl)
      (fun _ _ held => vastImage held ▸ Bytes.markedLength _ _) (vastPages ▸ by decide)
  rw [vastBegun]
  exact alone

theorem vastSlot {p : Page} (image : p.image = Bytes.marked 536870912 17179869217) {slot : Nat}
    (inside : slot < p.slots) : p.isUsed slot = decide (slot < UInt32.size) := by
  have size : UInt32.size = 4294967296 := rfl
  simp only [Page.isUsed, inside, image, Bytes.testMarked, decide_true, Bool.true_and]
  exact decide_eq_decide.mpr (by omega)

theorem vastFirst {p : Page} (layout : p.layout = vastFile.layout)
    (image : p.image = Bytes.marked 536870912 17179869217) :
    ∃ record, p.get? 0 = some record ∧ record.values = [0] := by
  have bytes : p.slotBytes 0 = [0, 0, 0, 0] := by
    rw [Page.slotBytes, layout, image]
    exact Bytes.sliceMarked (by decide) (by decide)
  refine ⟨_, if_pos (vastSlot image p.layout.holdsOne), ?_⟩
  rw [bytes]
  change Field.decodeAll [0, 0, 0, 0] = [0]
  decide

theorem vastKnown : vastReady.engine.pool.Knows vastFile := vastBegun ▸ rfl

theorem vastStorage : vastReady.engine.pool.storage = vastVolume := vastBegun ▸ rfl

theorem vastSeen (number : UInt32) : vastReady.engine.pool.view? ⟨vastFile.table, number⟩ =
    vastVolume.page? 0 number.toNat := by
  have known : vastReady.engine.pool.tables.get? vastFile.table = some vastFile := vastKnown
  rw [Pool.viewAbsent (vastBegun ▸ rfl), Pool.image?, known, Option.bind_some, vastStorage]
  rfl

theorem vastRoomy : ¬ vastReady.engine.pool.Full ⟨vastFile.table, 0⟩ := by
  obtain ⟨image, held⟩ : ∃ image, vastVolume.page? 0 0 = some image :=
    Storage.pagePresent (vastPages ▸ Nat.one_pos)
  have known : vastReady.engine.pool.tables.get? vastFile.table = some vastFile := vastKnown
  have inside : UInt32.size < vastFile.layout.slots := by decide
  refine fun full => full UInt32.size (Bytes.slice image (vastFile.layout.offset UInt32.size) 4) ?_
  rw [Pool.slot?, known, (vastSeen 0).trans held, Option.bind_some, Option.bind_some, Layout.slot?,
    if_pos inside, vastImage held, Bytes.testMarked]
  rfl

theorem inOpenTold {rid : Rid} {e : Engine} (told : means s.fields line (.insert values) = true)
    (opened : s.current = some txn)
    (done : (Engine.insert txn s.table values).settled s.engine = .ok rid e) :
    execute line s = .ok (.text s!"INSERT page {rid.page.number.toNat} slot {rid.slot.toNat}")
      {s with engine := e} := by
  obtain ⟨engine, table, fields, current⟩ := s
  cases opened
  let s : Shell := ⟨engine, table, fields, some txn⟩
  have attempted : onEngine (Engine.insert txn s.table values).attempt.settled s =
      .ok (.ok rid) {s with engine := e} := by
    refine engineOk ?_
    rw [Activity.settledAttempt, done]
  have inserted :
      inTransaction (Engine.insert · s.table values) s = .ok rid {s with engine := e} := by
    change (onEngine _ >>= _) s = _
    rw [okThen attempted]
    rfl
  rw [executeAsked told, inserted]
  rfl

theorem vastInserted {data : Bytes} (takes : vastFile.layout.Takes data) : ∃ q frame record,
    (Pool.insert 1 vastFile.table data).settled vastReady.engine.pool = .ok ⟨⟨1, 0⟩, 0⟩ q ∧
      q.resident.get? ⟨1, 0⟩ = some frame ∧ frame.page.get? 0 = some record ∧
      record.values = [0] := by
  have alone : ∀ other, other ≠ (1 : TxnId) → vastReady.engine.pool.locks.heldBy other = [] := by
    rw [vastBegun]
    exact fun _ _ => rfl
  have housed := vastUnowned.toHoused
  have able := vastUnowned.toSound.searchable vastUnowned.apart vastUnowned.room
  obtain ⟨⟨⟨table, number⟩, slot⟩, q, done, m, sought, move⟩ :=
    (vastUnowned.inserts vastKnown alone vastRoomy takes).sure
  cases sought with
  | added _ _ _ full => exact absurd (full 0 (Pool.roomInside housed vastKnown vastRoomy)) vastRoomy
  | found moves own room =>
    cases own
    obtain ⟨there, alike⟩ := able.probed moves
    cases move with
    | @fill _ _ _ _ frame page owns present filled =>
      obtain ⟨file, found, key, layout, _⟩ := there.keeps _ _ present
      obtain rfl : vastFile = file :=
        Option.some.inj ((vastKnown.later moves.grew).symm.trans found)
      have image := vastImage ((vastSeen number).symm.trans
        ((alike.views _).symm.trans (Pool.viewResident present)))
      obtain ⟨record, first, zero⟩ := vastFirst layout image
      have slots : frame.page.slots = 4294967304 := congrArg Layout.slots layout
      have taken (s : Nat) (before : s < UInt32.size) : frame.page.isUsed s = true := by
        rw [vastSlot image (Nat.lt_trans before (slots ▸ by decide)), decide_eq_true before]
      have free : frame.page.isUsed UInt32.size = false := by
        rw [vastSlot image (slots ▸ by decide), decide_eq_false (Nat.lt_irrefl _)]
      obtain ⟨wrapped, kept⟩ := Page.insertWraps taken free filled
      obtain rfl : slot = 0 := wrapped
      have inside := Pool.roomInside housed vastKnown room
      rw [vastStorage] at inside
      obtain rfl : number = 0 := UInt32.toNat_inj.mp (Nat.lt_one_iff.mp inside)
      refine ⟨_, _, record, done, (KeyMap.getInsert ..).trans (if_pos rfl), ?_, zero⟩
      exact kept.trans first

theorem vastSlotAlias : Shared vastReady [] ∧ TellsInsert "insert 9" [9] ∧
    [(9 : Int32)].length = vastReady.fields ∧ ∃ t frame record,
      execute "insert 9" vastReady = .ok (.text "INSERT page 0 slot 0") t ∧
      Pool.fetch ⟨vastReady.table, 0⟩ t.engine.pool = .ok frame t.engine.pool ∧
      frame.page.get? 0 = some record ∧ record.values = [0] := by
  have count : [(9 : Int32)].length = vastReady.fields := vastBegun ▸ rfl
  have takes : vastFile.layout.Takes (Record.ofValues [9]).data := ⟨rfl, by decide⟩
  have table : vastReady.table = vastFile.table := vastBegun ▸ rfl
  obtain ⟨q, frame, record, inserted, there, first, zero⟩ := vastInserted takes
  have done : (Engine.insert 1 vastReady.table [9]).settled vastReady.engine =
      .ok ⟨⟨1, 0⟩, 0⟩ {vastReady.engine with pool := q} := by
    rw [table, Engine.insert, Activity.settledWithin]
    exact congrArg (Engine.poolPart.outcome vastReady.engine) inserted
  refine ⟨vastShared, vastTells, count, _, frame, record,
    inOpenTold (vastTells.means count) (vastBegun ▸ rfl) done, Pool.fetchPresent ?_, first, zero⟩
  rw [table]
  exact there

end Shell
end PagedHeap
