/-! Blanks: the characters with the property White_Space. Words are what stands
between them. -/
namespace PagedHeap

def blankRuns : List (Nat × Nat) :=
  [(0x9, 0xD), (0x20, 0x20), (0x85, 0x85), (0xA0, 0xA0), (0x1680, 0x1680), (0x2000, 0x200A),
    (0x2028, 0x2029), (0x202F, 0x202F), (0x205F, 0x205F), (0x3000, 0x3000)]

def isBlank (c : Char) : Bool := blankRuns.any (fun run => run.1 ≤ c.toNat && c.toNat ≤ run.2)

/- Cuts at every blank. Two blanks in a row leave an empty piece between them. -/
def pieces : List Char → List (List Char)
  | [] => [[]]
  | c :: rest =>
    if isBlank c then [] :: pieces rest
    else match pieces rest with
      | [] => [[c]]
      | piece :: more => (c :: piece) :: more

def words (line : String) : List String :=
  ((pieces line.toList).filter (fun piece => !piece.isEmpty)).map String.ofList

end PagedHeap
