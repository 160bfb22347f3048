import PagedHeap.Config
import PagedHeap.Text.Numeral

/-! Command line options. Each takes a value, after a blank or an equals sign, and may
be given once. -/
namespace PagedHeap

structure Options where
  dataFile : String := "heapdb.tbl"
  fields : Nat := 2
  config : Config := {}
  deriving DecidableEq, Repr

inductive OptionError where
  | unexpected (word : String)
  | missingValue (option : String)
  | repeated (option : String)
  | badValue (option value : String) (cause : NumeralError)
  deriving DecidableEq, Repr

def OptionError.text : OptionError → String
  | .unexpected word => s!"unexpected argument '{word}' found"
  | .missingValue option => s!"a value is required for '{option}' but none was supplied"
  | .repeated option => s!"the argument '{option}' cannot be used multiple times"
  | .badValue option value cause =>
      s!"invalid value '{value}' for '{option}': {cause.text}"

namespace Options

def sizes : NumberRange := ⟨0, 18446744073709551615⟩

def readSize (option value : String) : Except OptionError Nat :=
  match Numeral.read sizes value with
  | .ok n => .ok n.toNat
  | .error cause => .error (.badValue option value cause)

def put (o : Options) (option value : String) : Except OptionError Options :=
  match option with
  | "--data-file" => .ok {o with dataFile := value}
  | "--fields" => return {o with fields := ← readSize option value}
  | "--pool-size" => return {o with config.poolSize := ← readSize option value}
  | "--page-size" => return {o with config.pageSize := ← readSize option value}
  | other => .error (.unexpected other)

def known (option : String) : Bool :=
  ["--data-file", "--fields", "--pool-size", "--page-size"].contains option

def cut (word : String) : String × Option String :=
  let cs := word.toList
  let name := cs.takeWhile (· ≠ '=')
  match cs.drop name.length with
  | [] => (word, none)
  | _ :: value => (String.ofList name, some (String.ofList value))

def once (o : Options) (seen : List String) (option value : String) :
    Except OptionError Options :=
  if seen.contains option then .error (.repeated option) else o.put option value

def readFrom (o : Options) (seen : List String) : List String → Except OptionError Options
  | [] => .ok o
  | word :: rest =>
    let (option, inline) := cut word
    if !known option then .error (.unexpected word)
    else match inline with
      | some value =>
        match o.once seen option value with
        | .ok o => readFrom o (option :: seen) rest
        | .error e => .error e
      | none =>
        match rest with
        | [] => .error (.missingValue option)
        | value :: more =>
          match o.once seen option value with
          | .ok o => readFrom o (option :: seen) more
          | .error e => .error e

def read (args : List String) : Except OptionError Options := readFrom {} [] args

end Options
end PagedHeap
