import PagedHeap.Ident
import PagedHeap.Bytes

/-! Records: a row of bytes, and the place it has once it is stored. A field is a
signed 32-bit number in four bytes, the low byte first. -/
namespace PagedHeap

namespace Field

def width : Nat := 4

def encode (v : Int32) : Bytes :=
  let n := v.toUInt32.toNat
  [.ofNat n, .ofNat (n / 256), .ofNat (n / 65536), .ofNat (n / 16777216)]

def decode (a b c d : UInt8) : Int32 :=
  (UInt32.ofNat (a.toNat + 256 * b.toNat + 65536 * c.toNat + 16777216 * d.toNat)).toInt32

def decodeAll : Bytes → List Int32
  | a :: b :: c :: d :: rest => decode a b c d :: decodeAll rest
  | _ => []

theorem encodeLength (v : Int32) : (encode v).length = width := rfl

theorem decodeEncode (v : Int32) (rest : Bytes) :
    decodeAll (encode v ++ rest) = v :: decodeAll rest := by
  have bound := v.toUInt32.toNat_lt
  simp only [encode, List.cons_append, List.nil_append, decodeAll, decode, UInt8.toNat_ofNat']
  congr 1
  have whole : v.toUInt32.toNat % 2 ^ 8 + 256 * (v.toUInt32.toNat / 256 % 2 ^ 8)
      + 65536 * (v.toUInt32.toNat / 65536 % 2 ^ 8)
      + 16777216 * (v.toUInt32.toNat / 16777216 % 2 ^ 8) = v.toUInt32.toNat := by omega
  rw [whole, UInt32.ofNat_toNat]
  rfl

theorem encodeDecode (a b c d : UInt8) : encode (decode a b c d) = [a, b, c, d] := by
  have ha := a.toNat_lt
  have hb := b.toNat_lt
  have hc := c.toNat_lt
  have hd := d.toNat_lt
  have number : (decode a b c d).toUInt32.toNat =
      a.toNat + 256 * b.toNat + 65536 * c.toNat + 16777216 * d.toNat := by
    change (UInt32.ofNat _).toNat = _
    rw [UInt32.toNat_ofNat']
    omega
  simp only [encode, number, List.cons.injEq, and_true]
  refine ⟨?_, ?_, ?_, ?_⟩ <;> apply UInt8.toNat_inj.mp <;> rw [UInt8.toNat_ofNat'] <;> omega

/- Bytes behind the last whole field are lost. -/
theorem encodeDecodeAll (data : Bytes) :
    (decodeAll data).flatMap encode = data.take (data.length / width * width) := by
  induction data using decodeAll.induct with
  | case1 a b c d rest ih =>
    have longer : (a :: b :: c :: d :: rest).length / width * width =
        rest.length / width * width + 4 := by
      simp only [List.length_cons, width]
      omega
    rw [decodeAll, List.flatMap_cons, encodeDecode, ih, longer]
    rfl
  | case2 data short =>
    have none : data.length / width = 0 := by
      match data, short with
      | [], _ | [_], _ | [_, _], _ | [_, _, _], _ => simp [width]
      | a :: b :: c :: d :: rest, short => exact (short a b c d rest rfl).elim
    rw [none, Nat.zero_mul, List.take_zero, decodeAll]
    · rfl
    · exact short

end Field

structure Record where
  rid : Option Rid
  data : Bytes
  deriving DecidableEq, Repr

namespace Record

def ofValues (values : List Int32) : Record := ⟨none, values.flatMap Field.encode⟩

def values (r : Record) : List Int32 := Field.decodeAll r.data

def width (r : Record) : Nat := r.data.length

def widthForFields (count : Nat) : Nat := count * Field.width

theorem widthOfValues (values : List Int32) :
    (ofValues values).width = widthForFields values.length := by
  induction values with
  | nil => rfl
  | cons v rest ih =>
    simp only [width, ofValues, widthForFields, List.flatMap_cons, List.length_append,
      Field.encodeLength, List.length_cons] at ih ⊢
    rw [ih, Nat.add_mul, Nat.one_mul, Nat.add_comm]

theorem valuesOfValues (values : List Int32) : (ofValues values).values = values := by
  induction values with
  | nil => rfl
  | cons v rest ih =>
    simp only [Record.values, ofValues, List.flatMap_cons] at ih ⊢
    rw [Field.decodeEncode, ih]

end Record
end PagedHeap
