/-! Byte strings, and writing into one of them at an offset. -/
namespace PagedHeap

abbrev Bytes := List UInt8

namespace Bytes

/-- Puts data at an offset. A gap before the offset is filled with zeroes; the string
grows where the data reaches over its end. -/
def splice (image : Bytes) (offset : Nat) (data : Bytes) : Bytes :=
  image.take offset ++ List.replicate (offset - image.length) 0 ++ data
    ++ image.drop (offset + data.length)

def slice (image : Bytes) (offset length : Nat) : Bytes := (image.drop offset).take length

theorem spliceLength {image : Bytes} {offset : Nat} {data : Bytes}
    (h : offset + data.length ≤ image.length) :
    (splice image offset data).length = image.length := by
  simp only [splice, List.length_append, List.length_take, List.length_drop,
    List.length_replicate]
  omega

theorem sliceSplice (image : Bytes) (offset : Nat) (data : Bytes) :
    slice (splice image offset data) offset data.length = data := by
  have front : (image.take offset ++ List.replicate (offset - image.length) 0).length
      = offset := by
    simp only [List.length_append, List.length_take, List.length_replicate]
    omega
  rw [splice, slice, List.append_assoc (_ ++ _), List.drop_append_of_le_length (by omega),
    List.drop_of_length_le (by omega), List.nil_append, List.take_left]

theorem spliceBefore {image : Bytes} {offset : Nat} (data : Bytes) {i : Nat} (h : i < offset)
    (inside : i < image.length) : (splice image offset data)[i]? = image[i]? := by
  rw [splice, List.append_assoc, List.append_assoc,
    List.getElem?_append_left (by rw [List.length_take]; omega), List.getElem?_take_of_lt h]

theorem spliceBehind {image : Bytes} {offset : Nat} {data : Bytes} {i : Nat}
    (h : offset + data.length ≤ i) : (splice image offset data)[i]? = image[i]? := by
  have front : (image.take offset ++ List.replicate (offset - image.length) 0
      ++ data).length = offset + data.length := by
    simp only [List.length_append, List.length_take, List.length_replicate]
    omega
  rw [splice, List.getElem?_append_right (by omega), front, List.getElem?_drop]
  congr 1
  omega

end Bytes
end PagedHeap
