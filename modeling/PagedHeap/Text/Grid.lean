/-! A table drawn with characters: titles over a double rule, a rule under each row.
Cells are flush left with a blank on both sides. Short rows are filled up with empty
cells. -/
namespace PagedHeap

structure Grid where
  titles : List String
  rows : List (List String)
  deriving DecidableEq, Repr

namespace Grid

def columns (g : Grid) : Nat := ((g.titles :: g.rows).map List.length).foldl max 0

def cell (row : List String) (column : Nat) : String := row.getD column ""

def widths (g : Grid) : List Nat :=
  (List.range g.columns).map fun column =>
    ((g.titles :: g.rows).map (fun row => (cell row column).length)).foldl max 0

def pad (text : String) (width : Nat) : String :=
  text ++ String.ofList (List.replicate (width - text.length) ' ')

def rule (mark : Char) (widths : List Nat) : String :=
  widths.foldl
    (fun line width => line ++ String.ofList (List.replicate (width + 2) mark) ++ "+") "+"

def line (widths : List Nat) (row : List String) : String :=
  widths.zipIdx.foldl (fun line column => s!"{line} {pad (cell row column.2) column.1} |") "|"

def lines (g : Grid) : List String :=
  let widths := g.widths
  let body := match g.rows with
    | [] => [rule '-' widths]
    | rows => rows.flatMap (fun row => [line widths row, rule '-' widths])
  [rule '-' widths, line widths g.titles, rule '=' widths] ++ body

def text (g : Grid) : String := g.lines.foldl (fun text line => text ++ line ++ "\n") ""

end Grid
end PagedHeap
