import PagedHeap.Bytes

/-! What a file holds, as runs of equal bytes: a gap is one run however long it is.
Several lists of runs stand for one byte string, which is `bytes`, and each operation
is the one of the same name on that string. -/
namespace PagedHeap

structure Run where
  length : Nat
  byte : UInt8
  deriving DecidableEq, Repr

abbrev Content := List Run

namespace Content

def bytes (c : Content) : Bytes := c.flatMap fun run => List.replicate run.length run.byte

def size : Content → Nat
  | [] => 0
  | run :: rest => run.length + size rest

def before (byte : UInt8) : Content → Content
  | [] => [⟨1, byte⟩]
  | run :: rest =>
    if run.byte = byte then ⟨run.length + 1, byte⟩ :: rest else ⟨1, byte⟩ :: run :: rest

def ofBytes (data : Bytes) : Content := data.foldr before []

def gap (length : Nat) : Content := if length = 0 then [] else [⟨length, 0⟩]

def take (count : Nat) : Content → Content
  | [] => []
  | run :: rest =>
    if run.length ≤ count then run :: take (count - run.length) rest
    else [{run with length := count}]

def drop (count : Nat) : Content → Content
  | [] => []
  | run :: rest =>
    if run.length ≤ count then drop (count - run.length) rest
    else {run with length := run.length - count} :: rest

def splice (c : Content) (offset : Nat) (data : Bytes) : Content :=
  take offset c ++ gap (offset - c.size) ++ ofBytes data ++ drop (offset + data.length) c

def slice (c : Content) (offset length : Nat) : Bytes := (take length (drop offset c)).bytes

@[simp] theorem bytesNil : bytes [] = [] := rfl

@[simp] theorem bytesCons (run : Run) (rest : Content) :
    bytes (run :: rest) = List.replicate run.length run.byte ++ bytes rest := rfl

@[simp] theorem bytesAppend (c d : Content) : bytes (c ++ d) = c.bytes ++ d.bytes :=
  List.flatMap_append

@[simp] theorem bytesLength (c : Content) : c.bytes.length = c.size := by
  induction c with
  | nil => rfl
  | cons run rest ih => simp [size, ih]

theorem bytesBefore (byte : UInt8) (c : Content) : (before byte c).bytes = byte :: c.bytes := by
  cases c with
  | nil => rfl
  | cons run rest =>
    rw [before]
    split
    · rename_i same
      rw [bytesCons, bytesCons, same, List.replicate_succ, List.cons_append]
    · rfl

@[simp] theorem bytesOfBytes (data : Bytes) : (ofBytes data).bytes = data := by
  induction data with
  | nil => rfl
  | cons byte rest ih =>
    exact (bytesBefore byte (ofBytes rest)).trans (congrArg (byte :: ·) ih)

@[simp] theorem bytesGap (length : Nat) : (gap length).bytes = List.replicate length 0 := by
  rw [gap]
  split
  · rename_i none
    rw [none]
    rfl
  · exact List.append_nil _

@[simp] theorem bytesTake (count : Nat) (c : Content) :
    (take count c).bytes = c.bytes.take count := by
  induction c generalizing count with
  | nil => rw [take, bytesNil, List.take_nil]
  | cons run rest ih =>
    rw [take, bytesCons, List.take_append, List.take_replicate, List.length_replicate]
    split
    · rename_i whole
      rw [bytesCons, ih, Nat.min_eq_right whole]
    · rename_i part
      have none : count - run.length = 0 := by omega
      rw [Nat.min_eq_left (by omega), none]
      rfl

@[simp] theorem bytesDrop (count : Nat) (c : Content) :
    (drop count c).bytes = c.bytes.drop count := by
  induction c generalizing count with
  | nil => rw [drop, bytesNil, List.drop_nil]
  | cons run rest ih =>
    rw [drop, bytesCons, List.drop_append, List.drop_replicate, List.length_replicate]
    split
    · rename_i whole
      rw [ih, Nat.sub_eq_zero_of_le whole]
      rfl
    · rename_i part
      have none : count - run.length = 0 := by omega
      rw [none]
      rfl

theorem bytesSplice (c : Content) (offset : Nat) (data : Bytes) :
    (c.splice offset data).bytes = Bytes.splice c.bytes offset data := by
  simp [splice, Bytes.splice]

theorem sliceBytes (c : Content) (offset length : Nat) :
    c.slice offset length = Bytes.slice c.bytes offset length := by
  simp [slice, Bytes.slice]

end Content
end PagedHeap
