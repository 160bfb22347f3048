import PagedHeap.Text.Blank
import PagedHeap.Text.Numeral

/-! Command lines: a word for the command and words for its operands. Operands are
asked for by insert and delete only; behind any other command they are passed over. -/
namespace PagedHeap

inductive Command where
  | begin
  | commit
  | abort
  | insert (values : List Int32)
  | delete (page slot : UInt32)
  | scan
  | flush
  | stats
  | help
  | exit
  deriving DecidableEq, Repr

inductive Operand where
  | value
  | pageNumber
  | slot
  deriving DecidableEq, Repr

def Operand.text : Operand → String
  | .value => "value"
  | .pageNumber => "page number"
  | .slot => "slot"

inductive CommandError where
  | badNumber (operand : Operand) (word : String) (cause : NumeralError)
  | valueCount (expected actual : Nat)
  | deleteUsage
  | unknown (word : String)
  deriving DecidableEq, Repr

def CommandError.text : CommandError → String
  | .badNumber operand word cause => s!"bad {operand.text} {word}: {cause.text}"
  | .valueCount expected actual => s!"expected {expected} values, got {actual}"
  | .deleteUsage => "usage: delete <page> <slot>"
  | .unknown word => s!"unknown command {word}, try \"help\""

namespace Command

def number (operand : Operand) (range : NumberRange) (word : String) :
    Except CommandError Int :=
  match Numeral.read range word with
  | .ok n => .ok n
  | .error cause => .error (.badNumber operand word cause)

def numbers (operand : Operand) (range : NumberRange) :
    List String → Except CommandError (List Int)
  | [] => .ok []
  | word :: rest => do
    let n ← number operand range word
    let ns ← numbers operand range rest
    pure (n :: ns)

/- Every value is read before they are counted. -/
def readInsert (fields : Nat) (operands : List String) : Except CommandError Command := do
  let values ← numbers .value .int32 operands
  if values.length = fields then pure (.insert (values.map Int32.ofInt))
  else throw (.valueCount fields values.length)

def readDelete : List String → Except CommandError Command
  | [page, slot] => do
    let page ← number .pageNumber .uint32 page
    let slot ← number .slot .uint32 slot
    pure (.delete (.ofNat page.toNat) (.ofNat slot.toNat))
  | _ => throw .deleteUsage

def readWords (fields : Nat) (name : String) (operands : List String) :
    Except CommandError Command :=
  match name with
  | "begin" => .ok .begin
  | "commit" => .ok .commit
  | "abort" => .ok .abort
  | "insert" => readInsert fields operands
  | "delete" => readDelete operands
  | "scan" => .ok .scan
  | "flush" => .ok .flush
  | "stats" => .ok .stats
  | "help" => .ok .help
  | "exit" => .ok .exit
  | "quit" => .ok .exit
  | other => .error (.unknown other)

/- The command of a line for records of so many values; a blank line has none. -/
def read (fields : Nat) (line : String) : Except CommandError (Option Command) :=
  match words line with
  | [] => .ok none
  | name :: operands => some <$> readWords fields name operands

end Command
end PagedHeap
