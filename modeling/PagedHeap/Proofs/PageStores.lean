import Mathlib.Tactic.SplitIfs
import PagedHeap.Proofs.Volumes

/-! Pages in memory and pages in a file. Whatever is asked of the two, they answer alike, and
the file holds the pages one behind the other, for whoever opens it again. -/
namespace PagedHeap

namespace Bytes

variable {pages : List Bytes} {size : Nat}

theorem flattenSize (whole : ∀ page ∈ pages, page.length = size) :
    pages.flatten.length = pages.length * size := by
  induction pages with
  | nil => simp
  | cons page rest behind =>
    obtain ⟨first, others⟩ := List.forall_mem_cons.mp whole
    rw [List.flatten_cons, List.length_append, first, behind others, List.length_cons,
      Nat.succ_mul, Nat.add_comm]

theorem flattenTake (whole : ∀ page ∈ pages, page.length = size) (n : Nat) :
    pages.flatten.take (n * size) = (pages.take n).flatten := by
  induction pages generalizing n with
  | nil => simp
  | cons page rest behind =>
    obtain ⟨first, others⟩ := List.forall_mem_cons.mp whole
    cases n with
    | zero => simp
    | succ n =>
      rw [List.flatten_cons, Nat.succ_mul, Nat.add_comm, ← first, List.take_length_add_append,
        first, behind others, List.take_succ_cons, List.flatten_cons]

theorem flattenDrop (whole : ∀ page ∈ pages, page.length = size) (n : Nat) :
    pages.flatten.drop (n * size) = (pages.drop n).flatten := by
  have parts : pages.flatten.take (n * size) ++ pages.flatten.drop (n * size) =
      pages.flatten.take (n * size) ++ (pages.drop n).flatten := by
    rw [List.take_append_drop, flattenTake whole, ← List.flatten_append, List.take_append_drop]
  exact List.append_cancel_left parts

theorem flattenSlice (whole : ∀ page ∈ pages, page.length = size) (n : Nat) :
    slice pages.flatten (n * size) size = pages[n]?.getD [] := by
  rw [slice, flattenDrop whole]
  cases found : pages[n]? with
  | none =>
    rw [List.drop_of_length_le (List.getElem?_eq_none_iff.mp found)]
    exact List.take_nil
  | some page =>
    obtain ⟨inside, here⟩ := List.getElem?_eq_some_iff.mp found
    rw [List.drop_eq_getElem_cons inside, here, List.flatten_cons,
      List.take_left' (whole page (List.mem_of_getElem? found))]
    rfl

theorem flattenSplice (whole : ∀ page ∈ pages, page.length = size) {image : Bytes}
    (fits : image.length = size) {n : Nat} (inside : n ≤ pages.length) :
    splice pages.flatten (n * size) image =
      (pages.take n ++ image :: pages.drop (n + 1)).flatten := by
  have start : n * size ≤ pages.flatten.length := by
    rw [flattenSize whole]
    exact Nat.mul_le_mul_right size inside
  have behind : n * size + image.length = (n + 1) * size := by
    rw [fits, Nat.succ_mul]
  rw [splice, flattenTake whole, Nat.sub_eq_zero_of_le start, behind, flattenDrop whole]
  simp

end Bytes

/- What a failure is, in whatever words. -/
inductive Failure where
  | misuse (cause : Misuse)
  | endOfFile
  | other
  deriving DecidableEq, Repr

def Error.failure : Error → Failure
  | .invalid cause => .misuse cause
  | .storage (.unallocated _) | .storage .shortRead => .endOfFile
  | _ => .other

inductive StoreCall where
  | pageSize
  | count
  | allocate
  | read (page : UInt32) (length : Nat)
  | write (page : UInt32) (image : Bytes)

inductive StoreAnswer where
  | bytes (count : Nat)
  | number (page : UInt32)
  | image (data : Bytes)
  | done
  deriving DecidableEq, Repr

namespace StoreCall

def work (v : VolumeId) : StoreCall → Instant Storage StoreAnswer
  | .pageSize => do return .bytes ((← get).pageSize v)
  | .count => do return .number (← Storage.count v)
  | .allocate => do return .number (← Storage.allocate v)
  | .read page length => do return .image (← Storage.read v page length)
  | .write page image => do
    Storage.write v page image
    return .done

/- What a row of pages answers, and the row that is left. -/

def reply (size : Nat) (pages : List Bytes) : StoreCall → Except Failure StoreAnswer
  | .pageSize => .ok (.bytes size)
  | .count | .allocate => .ok (.number (.ofNat pages.length))
  | .read page length =>
    if length = size then
      match pages[page.toNat]? with
      | some image => .ok (.image image)
      | none => .error .endOfFile
    else .error (.misuse (.bufferLength length size))
  | .write _ image =>
    if image.length = size then .ok .done
    else .error (.misuse (.bufferLength image.length size))

def leaves (size : Nat) (pages : List Bytes) : StoreCall → List Bytes
  | .allocate => pages ++ [List.replicate size 0]
  | .write page image => if image.length = size then pages.set page.toNat image else pages
  | .pageSize | .count | .read .. => pages

/- How many pages there are, and calls for which there are enough and not too many. -/

def pagesAfter (pages : Nat) : StoreCall → Nat
  | .allocate => pages + 1
  | _ => pages

/- A read behind the last page has to ask for a place that files can be gone to. -/
def Proper (size : Nat) (reach : UInt64) (pages : Nat) : StoreCall → Prop
  | .allocate => pages + 1 < UInt32.size
  | .write page _ => page.toNat < pages
  | .read page length => length = size → pages ≤ page.toNat → page.toNat * size ≤ reach.toNat
  | _ => True

def AllProper (size : Nat) (reach : UInt64) (pages : Nat) : List StoreCall → Prop
  | [] => True
  | call :: rest => call.Proper size reach pages ∧ AllProper size reach (call.pagesAfter pages) rest

instance (size : Nat) (reach : UInt64) (pages : Nat) : DecidablePred (Proper size reach pages)
  | .allocate => inferInstanceAs (Decidable (pages + 1 < UInt32.size))
  | .write page _ => inferInstanceAs (Decidable (page.toNat < pages))
  | .read .. => inferInstanceAs (Decidable (_ → _ → _ ≤ _))
  | .pageSize | .count => isTrue trivial

instance decideAll (size : Nat) (reach : UInt64) (pages : Nat) :
    DecidablePred (AllProper size reach pages)
  | [] => isTrue trivial
  | call :: rest =>
    have := decideAll size reach (call.pagesAfter pages) rest
    inferInstanceAs (Decidable (call.Proper size reach pages ∧
      AllProper size reach (call.pagesAfter pages) rest))

theorem leavesLength (size : Nat) (pages : List Bytes) (call : StoreCall) :
    (call.leaves size pages).length = call.pagesAfter pages.length := by
  cases call with
  | allocate => exact List.length_append
  | write page image =>
    simp only [leaves, pagesAfter]
    split
    · exact List.length_set ..
    · rfl
  | _ => rfl

def answer : EStateM.Result Error Storage StoreAnswer → Except Failure StoreAnswer × Storage
  | .ok a s => (.ok a, s)
  | .error e s => (.error e.failure, s)

def ask (v : VolumeId) (call : StoreCall) (s : Storage) : Except Failure StoreAnswer × Storage :=
  answer (call.work v s)

/- Calls one after the other, with all their answers. -/

def askAll (v : VolumeId) : List StoreCall → Storage → List (Except Failure StoreAnswer) × Storage
  | [], s => ([], s)
  | call :: rest, s =>
    let first := call.ask v s
    let others := askAll v rest first.2
    (first.1 :: others.1, others.2)

def replyAll (size : Nat) : List StoreCall → List Bytes →
    List (Except Failure StoreAnswer) × List Bytes
  | [], pages => ([], pages)
  | call :: rest, pages =>
    let others := replyAll size rest (call.leaves size pages)
    (call.reply size pages :: others.1, others.2)

end StoreCall

theorem Directory.resolvePut {d : Directory} {name file other : String} (content : Content)
    (resolved : d.resolve name = .ok file) : (d.put other content).resolve name = .ok file := by
  have followed (place : String) (parts : List String) (led : d.follow place parts = .ok file) :
      (d.put other content).follow place parts = .ok file := by
    induction parts generalizing place with
    | nil => cases led
    | cons part rest ih =>
      simp only [follow] at led ⊢
      split_ifs at led ⊢ with blank up slash long last
      · exact ih place led
      · exact ih _ led
      · exact led
  unfold resolve at resolved ⊢
  split_ifs at resolved with void long
  have long' : ¬ longestPath < ((d.put other content).path name).utf8ByteSize := long
  rw [if_neg void, if_neg long']
  exact followed "" _ resolved

namespace Storage

/- A volume that keeps pages: in memory, or in the file that a name leads to. -/
structure Keeps (reach : UInt64) (home : Option (String × String)) (s : Storage) (v : VolumeId)
    (size : Nat) (pages : List Bytes) : Prop where
  present : v < s.volumes.length
  sized : s.pageSize v = size
  verdicts : (s.volume v).verdicts = []
  script : (s.volume v).script = []
  whole : ∀ image ∈ pages, image.length = size
  medium : match home with
    | none => (s.volume v).medium = .memory pages
    | some (name, file) => (s.volume v).medium = .file file ∧
        s.directory.resolve name = .ok file ∧ s.directory.bytes file = pages.flatten ∧
        s.directory.reach = reach

namespace Keeps

variable {reach : UInt64} {home : Option (String × String)} {s : Storage} {v : VolumeId}
  {size : Nat} {pages : List Bytes}

theorem logged (keeps : Keeps reach home s v size pages) (call : Call) :
    ∃ t, log v call s = .ok () t ∧ Keeps reach home t v size pages := by
  have own := ownVolume keeps.present fun x => {x with calls := call :: x.calls}
  refine ⟨_, rfl, ?_, ?_, ?_, ?_, keeps.whole, ?_⟩
  · simpa [update] using keeps.present
  · simpa only [pageSize, own] using keeps.sized
  · simpa only [own] using keeps.verdicts
  · simpa only [own] using keeps.script
  · rw [own]
    exact keeps.medium

theorem inMemory (keeps : Keeps reach none s v size pages) {pages' : List Bytes}
    (whole : ∀ image ∈ pages', image.length = size) :
    Keeps reach none (s.update v ({· with medium := .memory pages'})) v size pages' := by
  have own := ownVolume keeps.present ({· with medium := .memory pages'})
  refine ⟨?_, ?_, ?_, ?_, whole, ?_⟩
  · simpa [update] using keeps.present
  · simpa only [pageSize, own] using keeps.sized
  · simpa only [own] using keeps.verdicts
  · simpa only [own] using keeps.script
  · rw [own]

theorem inFile {name file : String} (keeps : Keeps reach (some (name, file)) s v size pages)
    {content : Content} {pages' : List Bytes} (same : content.bytes = pages'.flatten)
    (whole : ∀ image ∈ pages', image.length = size) :
    Keeps reach (some (name, file)) {s with directory := s.directory.put file content} v size
      pages' where
  present := keeps.present
  sized := keeps.sized
  verdicts := keeps.verdicts
  script := keeps.script
  whole := whole
  medium := by
    obtain ⟨medium, resolved, -, reach⟩ := keeps.medium
    refine ⟨medium, Directory.resolvePut content resolved, ?_, reach⟩
    rw [Directory.bytesPut, if_pos rfl]
    exact same

theorem pageCount (keeps : Keeps reach home s v size pages) (positive : 0 < size) :
    s.pageCount v = .ofNat pages.length := by
  have medium := keeps.medium
  unfold Storage.pageCount
  cases home with
  | none => rw [show (s.volume v).medium = _ from medium]
  | some place =>
    obtain ⟨medium, -, bytes, -⟩ := medium
    rw [medium]
    change UInt32.ofNat ((s.directory.content place.2).size / s.pageSize v) = _
    rw [← Content.bytesLength, show (s.directory.content place.2).bytes = _ from bytes,
      Bytes.flattenSize keeps.whole, keeps.sized, Nat.mul_div_cancel _ positive]

theorem image (keeps : Keeps reach home s v size pages) (positive : 0 < size) (page : UInt32)
    (near : pages.length ≤ page.toNat → page.toNat * size ≤ reach.toNat) :
    match pages[page.toNat]? with
    | some image => s.image v page = .ok image
    | none => ∃ cause, s.image v page = .error cause ∧
        (Error.storage cause).failure = .endOfFile := by
  have medium := keeps.medium
  unfold Storage.image
  cases home with
  | none =>
    rw [show (s.volume v).medium = _ from medium]
    cases found : pages[page.toNat]? with
    | none => exact ⟨.unallocated page, by simp [found], rfl⟩
    | some image => simp [found]
  | some place =>
    obtain ⟨medium, -, bytes, reach⟩ := medium
    have reached : s.directory.reaches place.2 (page.toNat * size) = true := by
      rcases Nat.lt_or_ge page.toNat pages.length with inside | outside
      · refine Directory.reachesInside ?_
        rw [bytes, Bytes.flattenSize keeps.whole]
        exact Nat.mul_le_mul_right size (Nat.le_of_lt inside)
      · simp [Directory.reaches, reach, near outside]
    rw [medium]
    simp only [Content.sliceBytes, keeps.sized, reached, if_true]
    rw [show (s.directory.content place.2).bytes = _ from bytes, Bytes.flattenSlice keeps.whole]
    cases found : pages[page.toNat]? with
    | none =>
      have short : ¬ ([] : Bytes).length = size := fun same => by
        rw [← same] at positive
        exact absurd positive (Nat.lt_irrefl 0)
      exact ⟨.shortRead, if_neg short, rfl⟩
    | some image => exact if_pos (keeps.whole image (List.mem_of_getElem? found))

theorem store (keeps : Keeps reach home s v size pages) {page : UInt32} {image : Bytes}
    (inside : page.toNat < pages.length) (fits : image.length = size) :
    ∃ t, s.store v page image = .ok t ∧ Keeps reach home t v size (pages.set page.toNat image) := by
  have whole : ∀ other ∈ pages.set page.toNat image, other.length = size := fun other there => by
    rcases List.mem_or_eq_of_mem_set there with old | new
    · exact keeps.whole other old
    · exact new ▸ fits
  have medium := keeps.medium
  unfold Storage.store
  cases home with
  | none =>
    rw [show (s.volume v).medium = _ from medium]
    exact ⟨_, if_pos inside, keeps.inMemory whole⟩
  | some place =>
    obtain ⟨medium, -, bytes, -⟩ := medium
    have start : page.toNat * size ≤ (s.directory.bytes place.2).length := by
      rw [bytes, Bytes.flattenSize keeps.whole]
      exact Nat.mul_le_mul_right size (Nat.le_of_lt inside)
    rw [medium]
    simp only [keeps.sized, Directory.reachesInside start, if_true]
    refine ⟨_, rfl, keeps.inFile ?_ whole⟩
    rw [Content.bytesSplice, show (s.directory.content place.2).bytes = _ from bytes,
      Bytes.flattenSplice keeps.whole fits (Nat.le_of_lt inside), List.set_eq_take_append_cons_drop,
      if_pos inside]

theorem extend (keeps : Keeps reach home s v size pages) (positive : 0 < size)
    (few : pages.length < UInt32.size) {image : Bytes} (fits : image.length = size) :
    (s.extend v image).1 = .ofNat pages.length ∧
      Keeps reach home (s.extend v image).2 v size (pages ++ [image]) := by
  have whole : ∀ other ∈ pages ++ [image], other.length = size := fun other there => by
    rcases List.mem_append.mp there with old | new
    · exact keeps.whole other old
    · exact List.mem_singleton.mp new ▸ fits
  have count := keeps.pageCount positive
  have medium := keeps.medium
  unfold Storage.extend
  cases home with
  | none =>
    rw [show (s.volume v).medium = _ from medium]
    exact ⟨count, keeps.inMemory whole⟩
  | some place =>
    obtain ⟨medium, -, bytes, -⟩ := medium
    rw [medium]
    refine ⟨count, keeps.inFile ?_ whole⟩
    rw [Content.bytesSplice, show (s.directory.content place.2).bytes = _ from bytes, keeps.sized,
      count, UInt32.toNat_ofNat_of_lt' few, Bytes.flattenSplice keeps.whole fits (Nat.le_refl _),
      List.take_length, List.drop_of_length_le (Nat.le_succ _)]

/- With nothing laid up for the volume, calls go straight to its pages. -/

theorem met (keeps : Keeps reach home s v size pages) (point : FaultPoint) (page : Option UInt32) :
    Storage.met v point page s = .ok none s := by
  simp only [Storage.met, keeps.verdicts, keeps.script, Verdict.take, Fault.take]

theorem pass (keeps : Keeps reach home s v size pages) (point : FaultPoint) (page : Option UInt32) :
    Storage.pass v point page s = .ok () s := okThen (keeps.met point page) _

theorem checkLength (keeps : Keeps reach home s v size pages) (length : Nat) :
    s.checkLength v length =
      if length = size then .ok () else .error (.bufferLength length size) := by
  rw [Storage.checkLength, keeps.sized]

end Keeps

def Answers (reach : UInt64) (home : Option (String × String)) (v : VolumeId) (size : Nat)
    (pages : List Bytes) (call : StoreCall) (s : Storage) : Prop :=
  (call.ask v s).1 = call.reply size pages ∧
    Keeps reach home (call.ask v s).2 v size (call.leaves size pages)

section calls

variable {reach : UInt64} {home : Option (String × String)} {s : Storage} {v : VolumeId}
  {size : Nat} {pages : List Bytes} {call : StoreCall}

theorem Answers.made {r : EStateM.Result Error Storage StoreAnswer}
    (worked : call.work v s = r) (reply : (StoreCall.answer r).1 = call.reply size pages)
    (keeps : Keeps reach home (StoreCall.answer r).2 v size (call.leaves size pages)) :
    Answers reach home v size pages call s := by
  unfold Answers StoreCall.ask
  rw [worked]
  exact ⟨reply, keeps⟩

theorem countAnswers (keeps : Keeps reach home s v size pages) (positive : 0 < size) :
    Answers reach home v size pages .count s := by
  have counted : Storage.count v s = .ok (s.pageCount v) s := okThen (keeps.pass .count none) _
  exact .made (okThen counted _)
    (congrArg (fun n => Except.ok (StoreAnswer.number n)) (keeps.pageCount positive)) keeps

theorem allocateAnswers (keeps : Keeps reach home s v size pages) (positive : 0 < size)
    (few : pages.length + 1 < UInt32.size) : Answers reach home v size pages .allocate s := by
  obtain ⟨t, logged, there⟩ := keeps.logged .allocate
  obtain ⟨number, grown⟩ := there.extend positive (Nat.lt_of_succ_lt few)
    (List.length_replicate (n := size) (a := 0))
  have made : Storage.allocate v s = .ok (t.extend v (.replicate (t.pageSize v) 0)).1
      (t.extend v (.replicate (t.pageSize v) 0)).2 :=
    (okThen logged _).trans ((okThen (there.pass .allocate none) _).trans
      (okThen (there.met .fill none) _))
  rw [there.sized] at made
  exact .made (okThen made _) (congrArg (fun n => Except.ok (StoreAnswer.number n)) number) grown

theorem lengthAsked {α : Type} (keeps : Keeps reach home s v size pages) (point : FaultPoint)
    (page : UInt32) (length : Nat) (next : Storage → Instant Storage α) :
    (pass v point (some page) >>= fun _ => get >>= fun t => demand Storage (t.checkLength v length)
      >>= fun _ => get >>= next) s =
      if length = size then next s s else .error (.invalid (.bufferLength length size)) s := by
  rw [okThen (keeps.pass point _), getThen, keeps.checkLength]
  split <;> rfl

theorem readAnswers (keeps : Keeps reach home s v size pages) (positive : 0 < size) (page : UInt32)
    (length : Nat) (proper : (StoreCall.read page length).Proper size reach pages.length) :
    Answers reach home v size pages (.read page length) s := by
  obtain ⟨t, logged, there⟩ := keeps.logged (.read page)
  have made : Storage.read v page length s =
      if length = size then served Storage (t.image v page) t
      else .error (.invalid (.bufferLength length size)) t :=
    (okThen logged _).trans
      (lengthAsked there .read page length fun t => served Storage (t.image v page))
  by_cases fits : length = size
  · rw [if_pos fits] at made
    have found := there.image positive page (proper fits)
    cases known : pages[page.toNat]? with
    | none =>
      rw [known] at found
      obtain ⟨cause, missing, kind⟩ := found
      rw [missing] at made
      refine .made (errorThen made _) ?_ there
      simp only [StoreCall.reply, if_pos fits, known]
      exact congrArg Except.error kind
    | some image =>
      rw [known] at found
      rw [show t.image v page = .ok image from found] at made
      refine .made (okThen made _) ?_ there
      simp only [StoreCall.reply, if_pos fits, known]
      rfl
  · rw [if_neg fits] at made
    refine .made (errorThen made _) ?_ there
    simp only [StoreCall.reply, if_neg fits]
    rfl

theorem writeAnswers (keeps : Keeps reach home s v size pages) {page : UInt32} (image : Bytes)
    (inside : page.toNat < pages.length) :
    Answers reach home v size pages (.write page image) s := by
  obtain ⟨t, logged, there⟩ := keeps.logged (.write page)
  have made : Storage.write v page image s =
      if image.length = size then (served Storage (t.store v page image) >>= set) t
      else .error (.invalid (.bufferLength image.length size)) t :=
    (okThen logged _).trans (lengthAsked there .write page image.length
      fun t => served Storage (t.store v page image) >>= set)
  by_cases fits : image.length = size
  · obtain ⟨u, stored, kept⟩ := there.store inside fits
    rw [if_pos fits, stored] at made
    refine .made (okThen made _) ?_ ?_
    · simp only [StoreCall.reply, if_pos fits]
      rfl
    · simp only [StoreCall.leaves, if_pos fits]
      exact kept
  · rw [if_neg fits] at made
    refine .made (errorThen made _) ?_ ?_
    · simp only [StoreCall.reply, if_neg fits]
      rfl
    · simp only [StoreCall.leaves, if_neg fits]
      exact there

theorem callAnswers (keeps : Keeps reach home s v size pages) (positive : 0 < size)
    (proper : call.Proper size reach pages.length) : Answers reach home v size pages call s := by
  cases call with
  | pageSize =>
    exact .made rfl (congrArg (fun n => Except.ok (StoreAnswer.bytes n)) keeps.sized) keeps
  | count => exact countAnswers keeps positive
  | allocate => exact allocateAnswers keeps positive proper
  | read page length => exact readAnswers keeps positive page length proper
  | write page image => exact writeAnswers keeps image proper

theorem callsAnswer (keeps : Keeps reach home s v size pages) (positive : 0 < size)
    (calls : List StoreCall) (proper : StoreCall.AllProper size reach pages.length calls) :
    (StoreCall.askAll v calls s).1 = (StoreCall.replyAll size calls pages).1 ∧
      Keeps reach home (StoreCall.askAll v calls s).2 v size
        (StoreCall.replyAll size calls pages).2 := by
  induction calls generalizing s pages with
  | nil => exact ⟨rfl, keeps⟩
  | cons call rest ih =>
    obtain ⟨first, later⟩ := proper
    obtain ⟨reply, kept⟩ := callAnswers keeps positive first
    rw [← StoreCall.leavesLength size] at later
    obtain ⟨replies, last⟩ := ih kept later
    exact ⟨congr (congrArg List.cons reply) replies, last⟩

end calls

/- Stores that are set up. -/

theorem addKeeps (home : Option (String × String)) (s : Storage) (medium : Medium)
    {reach : UInt64} {size : Nat} {pages : List Bytes}
    (whole : ∀ image ∈ pages, image.length = size)
    (held : match home with
      | none => medium = .memory pages
      | some (name, file) => medium = .file file ∧ s.directory.resolve name = .ok file ∧
          s.directory.bytes file = pages.flatten ∧ s.directory.reach = reach) :
    ∃ v t, add ⟨size, medium, [], [], []⟩ s = .ok v t ∧ t.directory = s.directory ∧
      Keeps reach home t v size pages := by
  have own : ({s with volumes := s.volumes ++ [⟨size, medium, [], [], []⟩]} : Storage).volume
      s.volumes.length = ⟨size, medium, [], [], []⟩ := by
    simp [volume, List.getD_eq_getElem?_getD]
  refine ⟨_, _, rfl, rfl, ?_, ?_, ?_, ?_, whole, ?_⟩
  · simp
  · exact congrArg Volume.pageSize own
  · exact congrArg Volume.verdicts own
  · exact congrArg Volume.script own
  · rw [own]
    exact held

theorem addMemoryKeeps (reach : UInt64) (size : Nat) (s : Storage) :
    ∃ v t, addMemory size 0 s = .ok v t ∧ Keeps reach none t v size [] := by
  have none : ∀ image ∈ ([] : List Bytes), image.length = size := nofun
  obtain ⟨v, t, added, -, keeps⟩ := addKeeps .none s (.memory []) none rfl
  exact ⟨v, t, added, keeps⟩

theorem openFileSure {s : Storage} {name file : String} {size : Nat} (positive : 0 < size)
    (resolved : s.directory.resolve name = .ok file)
    (whole : (s.directory.content file).size % size = 0) :
    openFile name size s =
      add ⟨size, .file file, [], [], []⟩ {s with directory := s.directory.ensure file} := by
  have sized : checkSize size = .ok () := if_neg (Nat.ne_of_gt positive)
  have complete : checkWhole (s.directory.ensure file) name file size = .ok () := by
    refine if_pos ?_
    rw [Directory.contentEnsure]
    exact whole
  change (demand Storage (checkSize size) >>= fun _ => get >>= fun t =>
    served Storage (t.directory.resolve name) >>= fun file => _) s = _
  rw [sized, okThen (show demand Storage (.ok ()) s = .ok () s from rfl), getThen, resolved,
    okThen (show served Storage (.ok file) s = .ok file s from rfl)]
  change (demand Storage (checkWhole (s.directory.ensure file) name file size) >>= fun _ => _) _ = _
  rw [complete]
  rfl

theorem openFileKeeps {s : Storage} {name file : String} {reach : UInt64} {size : Nat}
    {pages : List Bytes} (positive : 0 < size) (resolved : s.directory.resolve name = .ok file)
    (whole : ∀ image ∈ pages, image.length = size)
    (bytes : s.directory.bytes file = pages.flatten) (reached : s.directory.reach = reach) :
    ∃ v t, openFile name size s = .ok v t ∧ t.directory.bytes file = s.directory.bytes file ∧
      Keeps reach (some (name, file)) t v size pages := by
  have ensured (other : String) : (s.directory.ensure file).bytes other = s.directory.bytes other :=
    s.directory.bytesEnsure file other
  have complete : (s.directory.content file).size % size = 0 := by
    rw [← Content.bytesLength]
    change (s.directory.bytes file).length % size = 0
    rw [bytes, Bytes.flattenSize whole, Nat.mul_mod_left]
  obtain ⟨v, t, added, directory, keeps⟩ := addKeeps (some (name, file))
    {s with directory := s.directory.ensure file} (.file file) whole
    ⟨rfl, Directory.resolvePut _ resolved, (ensured file).trans bytes, reached⟩
  refine ⟨v, t, (openFileSure positive resolved complete).trans added, ?_, keeps⟩
  rw [directory]
  exact ensured file

end Storage

namespace StoreCall

variable {reach : UInt64} {size : Nat} {name file : String} {s d : Storage} {v w : VolumeId}

theorem properSplit (pages : List Bytes) {calls further : List StoreCall}
    (proper : AllProper size reach pages.length (calls ++ further)) :
    AllProper size reach pages.length calls ∧
      AllProper size reach (replyAll size calls pages).2.length further := by
  induction calls generalizing pages with
  | nil => exact ⟨trivial, proper⟩
  | cons call rest ih =>
    obtain ⟨first, later⟩ := proper
    rw [← leavesLength size] at later
    obtain ⟨early, late⟩ := ih _ later
    rw [leavesLength] at early
    exact ⟨⟨first, early⟩, late⟩

/- The file holds the pages of the memory, one behind the other. -/
def Mirrors (size : Nat) (file : String) (s : Storage) (v : VolumeId) (d : Storage) : Prop :=
  ∃ pages, (s.volume v).medium = .memory pages ∧ (∀ image ∈ pages, image.length = size) ∧
    d.directory.bytes file = pages.flatten

theorem mirrors {pages : List Bytes} (memory : Storage.Keeps reach none s v size pages)
    (disk : Storage.Keeps reach (some (name, file)) d w size pages) : Mirrors size file s v d :=
  ⟨pages, memory.medium, memory.whole, disk.medium.2.2.1⟩

/- What a store in memory and one in a file have answered, and what they answer from then on
if the file is opened again. -/
structure Concord (size : Nat) (name file : String) (calls further : List StoreCall)
    (s : Storage) (v : VolumeId) (d : Storage) (w : VolumeId) : Prop where
  memory : (askAll v calls s).1 = (replyAll size calls []).1
  disk : (askAll w calls d).1 = (replyAll size calls []).1
  mirrors : Mirrors size file (askAll v calls s).2 v (askAll w calls d).2
  reopens : ∃ w' d', Storage.openFile name size (askAll w calls d).2 = .ok w' d' ∧
    d'.directory.bytes file = (askAll w calls d).2.directory.bytes file ∧
    (askAll w' further d').1 = (askAll v further (askAll v calls s).2).1 ∧
    Mirrors size file (askAll v further (askAll v calls s).2).2 v (askAll w' further d').2

/-- A new store in memory and one on an empty file answer the same calls alike, as a row of
pages would, as long as no read goes farther behind the last page than files can be gone to.
At every point the file holds the pages of the memory and nothing else. -/
theorem pageStoresAgree (positive : 0 < size) (s : Storage)
    (resolved : d.directory.resolve name = .ok file) (empty : d.directory.bytes file = []) :
    ∃ v s' w d', Storage.addMemory size 0 s = .ok v s' ∧ Storage.openFile name size d = .ok w d' ∧
      ∀ calls further, AllProper size d.directory.reach 0 (calls ++ further) →
        Concord size name file calls further s' v d' w := by
  have none : ∀ image ∈ ([] : List Bytes), image.length = size := nofun
  obtain ⟨v, s', added, memory⟩ := Storage.addMemoryKeeps d.directory.reach size s
  obtain ⟨w, d', opened, -, disk⟩ := Storage.openFileKeeps positive resolved none empty rfl
  refine ⟨v, s', w, d', added, opened, fun calls further proper => ?_⟩
  obtain ⟨early, late⟩ := properSplit [] proper
  obtain ⟨told, there⟩ := Storage.callsAnswer memory positive calls early
  obtain ⟨told', there'⟩ := Storage.callsAnswer disk positive calls early
  obtain ⟨medium, resolved', bytes, reached⟩ := there'.medium
  obtain ⟨w', d'', reopened, same, again⟩ :=
    Storage.openFileKeeps positive resolved' there'.whole bytes reached
  obtain ⟨later, last⟩ := Storage.callsAnswer there positive further late
  obtain ⟨later', last'⟩ := Storage.callsAnswer again positive further late
  exact ⟨told, told', mirrors there there',
    w', d'', reopened, same, later'.trans later.symm, mirrors last last'⟩

/- Two pages of two bytes. A buffer of three bytes is refused, and there is no third page. -/

def sampleCalls : List StoreCall :=
  [.allocate, .allocate, .write 1 [3, 4], .write 0 [1, 2], .read 1 2, .read 1 3, .read 2 2, .count]

example : replyAll 2 sampleCalls [] =
    ([.ok (.number 0), .ok (.number 1), .ok .done, .ok .done, .ok (.image [3, 4]),
      .error (.misuse (.bufferLength 3 2)), .error .endOfFile, .ok (.number 2)],
      [[1, 2], [3, 4]]) := rfl

theorem samplePath : "pages".splitOn "/" = ["pages"] := by
  have start : "pages".splitOn "/" = "pages".splitOnAux "/" 0 ⟨0⟩ 0 [] := rfl
  have step : ∀ i < 5, "pages".splitOnAux "/" 0 ⟨i⟩ 0 [] =
      "pages".splitOnAux "/" 0 ⟨i + 1⟩ 0 [] := by
    intro i before
    rw [String.splitOnAux]
    match i with
    | 0 | 1 | 2 | 3 | 4 => rfl
  rw [start, step 0 (by decide), step 1 (by decide), step 2 (by decide), step 3 (by decide),
    step 4 (by decide), String.splitOnAux]
  rfl

theorem sampleResolved : (Directory.empty "").resolve "pages" = .ok "pages" := by
  have plain : "pages".contains (Char.ofNat 0) = false := by simp
  rw [Directory.resolve, samplePath, plain]
  rfl

theorem sampleStoresAgree : (Directory.empty "").resolve "pages" = .ok "pages" ∧
    ∃ v s w d, Storage.addMemory 2 0 (.empty "") = .ok v s ∧
      Storage.openFile "pages" 2 (.empty "") = .ok w d ∧
      AllProper 2 0x7FFFFFFFFFFFFFFF 0 (sampleCalls ++ [.write 0 [5, 6], .read 1 2]) ∧
      Concord 2 "pages" "pages" sampleCalls [.write 0 [5, 6], .read 1 2] s v d w := by
  have proper : AllProper 2 0x7FFFFFFFFFFFFFFF 0 (sampleCalls ++ [.write 0 [5, 6], .read 1 2]) := by
    decide
  obtain ⟨v, s, w, d, added, opened, agree⟩ :=
    pageStoresAgree (d := .empty "") (show 0 < 2 by decide) (.empty "") sampleResolved rfl
  exact ⟨sampleResolved, v, s, w, d, added, opened, proper, agree _ _ proper⟩

/- Pages of more than 2^31 bytes, of which there are none. The last one there are numbers for
is behind the end of the memory, but out of reach in the file. -/
theorem farReadsDiffer : ∃ v s w d, Storage.addMemory 0x80000001 0 (.empty "") = .ok v s ∧
    Storage.openFile "pages" 0x80000001 (.empty "") = .ok w d ∧
    (ask v (.read 0xFFFFFFFF 0x80000001) s).1 = .error .endOfFile ∧
    (ask w (.read 0xFFFFFFFF 0x80000001) d).1 = .error .other :=
  ⟨_, _, _, _, rfl, Storage.openFileSure (by decide) sampleResolved rfl, rfl, rfl⟩

end StoreCall
end PagedHeap
