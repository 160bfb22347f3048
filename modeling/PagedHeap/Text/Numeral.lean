/-! Whole numbers in decimal, with one sign at most. A minus is a sign only where
numbers below zero are allowed. Digits are read from the left; a character that is no
digit is noticed before the number grows too large, and only in front of that. -/
namespace PagedHeap

structure NumberRange where
  low : Int
  high : Int
  deriving DecidableEq, Repr

def NumberRange.int32 : NumberRange := ⟨-2147483648, 2147483647⟩
def NumberRange.uint32 : NumberRange := ⟨0, 4294967295⟩

inductive NumeralError where
  | empty
  | digit
  | above
  | below
  deriving DecidableEq, Repr

def NumeralError.text : NumeralError → String
  | .empty => "cannot parse integer from empty string"
  | .digit => "invalid digit found in string"
  | .above => "number too large to fit in target type"
  | .below => "number too small to fit in target type"

namespace Numeral

def digit? (c : Char) : Option Nat :=
  if '0'.toNat ≤ c.toNat ∧ c.toNat ≤ '9'.toNat then some (c.toNat - '0'.toNat) else none

def push (negative : Bool) (soFar : Int) (digit : Nat) : Int :=
  if negative then soFar * 10 - digit else soFar * 10 + digit

def extend (range : NumberRange) (negative : Bool) (soFar : Int) :
    List Char → Except NumeralError Int
  | [] => .ok soFar
  | c :: rest =>
    match digit? c with
    | none => .error .digit
    | some d =>
      let next := push negative soFar d
      if range.high < next then .error .above
      else if next < range.low then .error .below
      else extend range negative next rest

def digits (range : NumberRange) (negative : Bool) (cs : List Char) :
    Except NumeralError Int :=
  if cs.isEmpty then .error .digit else extend range negative 0 cs

def read (range : NumberRange) (word : String) : Except NumeralError Int :=
  match word.toList with
  | [] => .error .empty
  | '+' :: rest => digits range false rest
  | '-' :: rest => if range.low < 0 then digits range true rest else .error .digit
  | cs => digits range false cs

end Numeral
end PagedHeap
