import PagedHeap.Bytes

/-! Bits of a byte string: bit n is bit n mod 8 of byte n div 8, the low bit first.
Bits behind the end read as off and cannot be switched. -/
namespace PagedHeap.Bits

def testByte (b : UInt8) (i : Nat) : Bool := b.toBitVec.getLsbD i

def writeByte (b : UInt8) (i : Nat) (on : Bool) : UInt8 :=
  if on then .ofBitVec (b.toBitVec ||| .twoPow 8 i)
  else .ofBitVec (b.toBitVec &&& ~~~(.twoPow 8 i))

theorem testWriteByte (b : UInt8) {i : Nat} (h : i < 8) (j : Nat) (on : Bool) :
    testByte (writeByte b i on) j = if i = j then on else testByte b j := by
  by_cases inside : j < 8
  · by_cases same : i = j
    · cases on <;> simp [testByte, writeByte, same, inside]
    · have apart : ¬ j = i := fun e => same e.symm
      cases on <;> simp [testByte, writeByte, same, apart, inside]
  · have other : ¬ i = j := fun e => inside (e ▸ h)
    simp [testByte, other, Nat.le_of_not_lt inside]

def test (bytes : Bytes) (i : Nat) : Bool :=
  match bytes[i / 8]? with
  | some b => testByte b (i % 8)
  | none => false

def write (bytes : Bytes) (i : Nat) (on : Bool) : Bytes :=
  bytes.modify (i / 8) (fun b => writeByte b (i % 8) on)

@[simp] theorem writeLength (bytes : Bytes) (i : Nat) (on : Bool) :
    (write bytes i on).length = bytes.length := by simp [write]

theorem testWrite {bytes : Bytes} {i : Nat} (h : i / 8 < bytes.length) (j : Nat) (on : Bool) :
    test (write bytes i on) j = if i = j then on else test bytes j := by
  have low : i % 8 < 8 := Nat.mod_lt _ (by decide)
  simp only [test, write, List.getElem?_modify]
  by_cases byte : i / 8 = j / 8
  · have inside : j / 8 < bytes.length := byte ▸ h
    simp only [byte, List.getElem?_eq_getElem inside, if_true, Option.map_eq_map,
      Option.map_some, testWriteByte _ low]
    have same : i % 8 = j % 8 ↔ i = j := by omega
    simp only [same]
  · have other : ¬ i = j := fun e => byte (e ▸ rfl)
    cases bytes[j / 8]? <;> simp [byte, other]

end PagedHeap.Bits
