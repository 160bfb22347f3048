import PagedHeap.Text.Command

/-! How the line of an insert may be spelled. Numbers are digits behind a sign or none, and as
many zeros in front as one likes; between words there are blanks of any kind. However the values
are spelled, they are the values that are read. -/
namespace PagedHeap

/- One digit at least, and nothing but digits. -/
structure Digits (cs : List Char) (n : Nat) : Prop where
  nonempty : cs ≠ []
  digits : ∀ c ∈ cs, c.isDigit = true
  value : Nat.ofDigitChars 10 cs 0 = n

inductive Spells : List Char → Int → Prop
  | plain {cs : List Char} {n : Nat} (digits : Digits cs n) : Spells cs n
  | plus {cs : List Char} {n : Nat} (digits : Digits cs n) : Spells ('+' :: cs) n
  | minus {cs : List Char} {n : Nat} (digits : Digits cs n) : Spells ('-' :: cs) (-n)

def Blanks (gap : List Char) : Prop := ∀ c ∈ gap, isBlank c = true

/- Values one behind the other, each with blanks in front of it, and any blanks at the end. -/
inductive SpellsAll : List Char → List Int32 → Prop
  | nil {gap : List Char} (blanks : Blanks gap) : SpellsAll gap []
  | cons {gap word rest : List Char} {v : Int32} {vs : List Int32} (apart : gap ≠ [])
      (blanks : Blanks gap) (spells : Spells word v.toInt) (behind : SpellsAll rest vs) :
      SpellsAll (gap ++ (word ++ rest)) (v :: vs)

def TellsInsert (line : String) (values : List Int32) : Prop :=
  ∃ gap rest, Blanks gap ∧ line.toList = gap ++ ("insert".toList ++ rest) ∧ SpellsAll rest values

/- Numbers. -/

theorem Digits.ofNat (n : Nat) : Digits n.repr.toList n := by
  rw [Nat.toList_repr]
  exact ⟨Nat.toDigits_ne_nil,
    fun _ there => Nat.isDigit_of_mem_toDigits (by decide) (by decide) there,
    Nat.ofDigitChars_ten_toDigits⟩

theorem Spells.usual (n : Int) : Spells (toString n).toList n := by
  rw [Int.toString_eq_repr, Int.repr_eq_if]
  split
  · rename_i positive
    have plain := Spells.plain (Digits.ofNat n.toNat)
    rwa [Int.toNat_of_nonneg positive] at plain
  · rename_i negative
    have minus := Spells.minus (Digits.ofNat (-n).toNat)
    rw [Int.toNat_of_nonneg (by omega), Int.neg_neg] at minus
    rw [String.toList_append]
    exact minus

theorem digitRange {c : Char} (digit : c.isDigit = true) : 48 ≤ c.toNat ∧ c.toNat ≤ 57 := by
  simp only [Char.isDigit, Bool.and_eq_true, decide_eq_true_eq] at digit
  exact ⟨digit.1, digit.2⟩

namespace Numeral

def signed (negative : Bool) (n : Nat) : Int := if negative then -n else n

theorem digitOfDigit {c : Char} (digit : c.isDigit = true) :
    digit? c = some (c.toNat - '0'.toNat) := if_pos (digitRange digit)

theorem pushSigned (negative : Bool) (n digit : Nat) :
    push negative (signed negative n) digit = signed negative (10 * n + digit) := by
  cases negative
  · simp only [push, signed, Bool.false_eq_true, if_false]
    omega
  · simp only [push, signed, if_true]
    omega

theorem digitsGrow (cs : List Char) (n : Nat) : n ≤ Nat.ofDigitChars 10 cs n := by
  induction cs generalizing n with
  | nil => exact Nat.le_of_eq Nat.ofDigitChars_nil.symm
  | cons c rest ih =>
    rw [Nat.ofDigitChars_cons]
    exact Nat.le_trans (by omega) (ih _)

/- What is read so far lies between zero and the whole number, so it is never out of range. -/
theorem signedBetween {range : NumberRange} {negative : Bool} {n whole : Nat}
    (zero : range.low ≤ 0 ∧ 0 ≤ range.high) (below : n ≤ whole)
    (fits : range.low ≤ signed negative whole ∧ signed negative whole ≤ range.high) :
    range.low ≤ signed negative n ∧ signed negative n ≤ range.high := by
  cases negative
  · simp only [signed, Bool.false_eq_true, if_false] at fits ⊢
    omega
  · simp only [signed, if_true] at fits ⊢
    omega

theorem extendDigits {range : NumberRange} (zero : range.low ≤ 0 ∧ 0 ≤ range.high) (negative : Bool)
    {cs : List Char} (digits : ∀ c ∈ cs, c.isDigit = true) {n : Nat}
    (fits : range.low ≤ signed negative (Nat.ofDigitChars 10 cs n) ∧
      signed negative (Nat.ofDigitChars 10 cs n) ≤ range.high) :
    extend range negative (signed negative n) cs =
      .ok (signed negative (Nat.ofDigitChars 10 cs n)) := by
  induction cs generalizing n with
  | nil => rw [Nat.ofDigitChars_nil, extend]
  | cons c rest ih =>
    rw [Nat.ofDigitChars_cons] at fits ⊢
    have next := signedBetween zero (digitsGrow rest _) fits
    simp only [extend, digitOfDigit (digits c List.mem_cons_self), pushSigned]
    rw [if_neg (Int.not_lt.mpr next.2), if_neg (Int.not_lt.mpr next.1)]
    exact ih (fun d there => digits d (List.mem_cons_of_mem c there)) fits

theorem readDigits {range : NumberRange} (zero : range.low ≤ 0 ∧ 0 ≤ range.high) (negative : Bool)
    {cs : List Char} {n : Nat} (number : Digits cs n)
    (fits : range.low ≤ signed negative n ∧ signed negative n ≤ range.high) :
    digits range negative cs = .ok (signed negative n) := by
  obtain ⟨nonempty, decimal, rfl⟩ := number
  unfold digits
  rw [if_neg (by rwa [List.isEmpty_iff])]
  have start : (0 : Int) = signed negative 0 := by cases negative <;> rfl
  rw [start]
  exact extendDigits zero negative decimal fits

theorem readSpelled {range : NumberRange} (below : range.low < 0) (above : 0 ≤ range.high)
    {word : List Char} {n : Int} (spells : Spells word n)
    (fits : range.low ≤ n ∧ n ≤ range.high) : read range (String.ofList word) = .ok n := by
  have zero : range.low ≤ 0 ∧ 0 ≤ range.high := ⟨Int.le_of_lt below, above⟩
  unfold read
  rw [String.toList_ofList]
  cases spells with
  | plus number => exact readDigits zero false number fits
  | minus number =>
    simp only [if_pos below]
    exact readDigits zero true number fits
  | plain number =>
    split
    · exact absurd rfl number.nonempty
    · exact absurd (number.digits '+' List.mem_cons_self) (by decide)
    · exact absurd (number.digits '-' List.mem_cons_self) (by decide)
    · exact readDigits zero false number fits

end Numeral

/- Words. -/

namespace Spells

variable {word : List Char} {n : Int}

theorem nonempty (spells : Spells word n) : word ≠ [] := by
  cases spells with
  | plain digits => exact digits.nonempty
  | plus | minus => exact List.cons_ne_nil _ _

theorem unbroken (spells : Spells word n) : ∀ c ∈ word, isBlank c = false := by
  have digit {c : Char} (digit : c.isDigit = true) : isBlank c = false := by
    have range := digitRange digit
    simp only [isBlank, blankRuns, List.any_cons, List.any_nil, Bool.or_false,
      Bool.or_eq_false_iff, Bool.and_eq_false_iff, decide_eq_false_iff_not]
    omega
  intro c there
  cases spells with
  | plain digits => exact digit (digits.digits c there)
  | plus digits =>
    rcases List.mem_cons.mp there with rfl | there
    · decide
    · exact digit (digits.digits c there)
  | minus digits =>
    rcases List.mem_cons.mp there with rfl | there
    · decide
    · exact digit (digits.digits c there)

end Spells

def inked (cs : List Char) : List (List Char) := (pieces cs).filter (fun piece => !piece.isEmpty)

/- Nothing stands before the first blank, so a word in front stays whole. -/
def Parted (cs : List Char) : Prop := ∃ more, pieces cs = [] :: more

theorem piecesBlank {c : Char} (blank : isBlank c = true) (rest : List Char) :
    pieces (c :: rest) = [] :: pieces rest := by
  rw [pieces, if_pos blank]

theorem inkedGap {gap : List Char} (blanks : Blanks gap) (rest : List Char) :
    inked (gap ++ rest) = inked rest := by
  induction gap with
  | nil => rfl
  | cons c gap ih =>
    have step : inked (c :: (gap ++ rest)) = inked (gap ++ rest) := by
      rw [inked, piecesBlank (blanks c List.mem_cons_self)]
      rfl
    exact step.trans (ih fun d there => blanks d (List.mem_cons_of_mem c there))

theorem Blanks.parted {gap : List Char} (blanks : Blanks gap) (apart : gap ≠ [])
    (rest : List Char) : Parted (gap ++ rest) := by
  cases gap with
  | nil => exact absurd rfl apart
  | cons c gap => exact ⟨_, piecesBlank (blanks c List.mem_cons_self) _⟩

theorem SpellsAll.parted {cs : List Char} {values : List Int32} (listed : SpellsAll cs values) :
    Parted cs := by
  cases listed with
  | nil blanks =>
    cases cs with
    | nil => exact ⟨[], rfl⟩
    | cons c gap => exact ⟨_, piecesBlank (blanks c List.mem_cons_self) _⟩
  | cons apart blanks => exact blanks.parted apart _

theorem inkedWord {word rest : List Char} (nonempty : word ≠ [])
    (unbroken : ∀ c ∈ word, isBlank c = false) (parted : Parted rest) :
    inked (word ++ rest) = word :: inked rest := by
  obtain ⟨more, cut⟩ := parted
  have whole : pieces (word ++ rest) = word :: more := by
    clear nonempty
    induction word with
    | nil => exact cut
    | cons c word ih =>
      have rest := ih fun d there => unbroken d (List.mem_cons_of_mem c there)
      rw [List.cons_append, pieces, unbroken c List.mem_cons_self, rest]
      rfl
  unfold inked
  rw [whole, cut, List.filter_cons_of_pos (by simpa using nonempty)]
  rfl

namespace SpellsAll

variable {cs : List Char} {values : List Int32}

theorem numbers (listed : SpellsAll cs values) (operand : Operand) :
    Command.numbers operand .int32 ((inked cs).map String.ofList) =
      .ok (values.map Int32.toInt) := by
  induction listed with
  | @nil gap blanks =>
    have none := inkedGap blanks []
    rw [List.append_nil] at none
    rw [none]
    rfl
  | @cons gap word rest v vs apart blanks spells listed ih =>
    rw [inkedGap blanks, inkedWord spells.nonempty spells.unbroken listed.parted, List.map_cons,
      Command.numbers, Command.number,
      Numeral.readSpelled (by decide) (by decide) spells ⟨v.le_toInt, v.toInt_le⟩, ih]
    rfl

theorem usual (values : List Int32) :
    SpellsAll (values.flatMap fun v => ' ' :: (toString v.toInt).toList) values := by
  induction values with
  | nil => exact .nil nofun
  | cons v vs ih =>
    have blank : Blanks [' '] := by
      intro c there
      rw [List.mem_singleton.mp there]
      decide
    exact .cons (List.cons_ne_nil _ _) blank (.usual v.toInt) ih

end SpellsAll

namespace TellsInsert

variable {line : String} {values : List Int32}

theorem usual (values : List Int32) : TellsInsert
    ("insert" ++ String.ofList (values.flatMap fun v => ' ' :: (toString v.toInt).toList))
    values := by
  refine ⟨[], _, nofun, ?_, SpellsAll.usual values⟩
  rw [String.toList_append]
  exact congrArg ("insert".toList ++ ·) String.toList_ofList

theorem words (tells : TellsInsert line values) : ∃ operands,
    PagedHeap.words line = "insert" :: operands ∧
      Command.numbers .value .int32 operands = .ok (values.map Int32.toInt) := by
  obtain ⟨gap, rest, blanks, spelled, listed⟩ := tells
  refine ⟨(inked rest).map String.ofList, ?_, listed.numbers .value⟩
  have all : "insert".toList.all (fun c => !isBlank c) = true := by decide
  have unbroken : ∀ c ∈ "insert".toList, isBlank c = false := fun c there => by
    simpa using List.all_eq_true.mp all c there
  have cut : inked line.toList = "insert".toList :: inked rest := by
    rw [spelled, inkedGap blanks, inkedWord (by decide) unbroken listed.parted]
  change (inked line.toList).map String.ofList = _
  rw [cut, List.map_cons, String.ofList_toList]

theorem read (tells : TellsInsert line values) (fields : Nat) :
    Command.read fields line = if values.length = fields then .ok (some (.insert values))
      else .error (.valueCount fields values.length) := by
  obtain ⟨operands, cut, numbers⟩ := tells.words
  have back : (values.map Int32.toInt).map Int32.ofInt = values := by
    rw [List.map_map]
    exact (List.map_congr_left fun v _ => Int32.ofInt_toInt v).trans (List.map_id values)
  have told : Command.readInsert fields operands =
      if values.length = fields then .ok (.insert values)
      else .error (.valueCount fields values.length) := by
    rw [Command.readInsert, numbers]
    change (if (values.map Int32.toInt).length = fields then _ else _) = _
    rw [List.length_map, back]
    rfl
  unfold Command.read
  rw [cut]
  change some <$> Command.readInsert fields operands = _
  rw [told]
  split <;> rfl

end TellsInsert

end PagedHeap
