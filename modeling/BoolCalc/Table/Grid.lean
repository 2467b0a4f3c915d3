import BoolCalc.Table.Basic

/-!
# Grids

A truth table drawn with box characters.

Every column is as wide as its header and one space on either side. The bits
below it are centred, and when the room to their sides is uneven the wider
part is on the right.

## Main definitions

* `gridLines`: The lines of a grid.
-/

namespace BoolCalc

/-- A line of a grid: the cells between a left edge and a right edge, with a
    separator where two cells meet. -/
def gridLine (left separator right : String) (cells : List String) : String :=
  left ++ Text.joinWith separator cells ++ right

/-- A rule of a grid, drawn along the width of each column. -/
def gridRule (left fill separator right : String) (headers : List String) : String :=
  gridLine left separator right
    (headers.map fun h => Text.repeatText (h.length + 2) fill)

/-- A bit in the middle of a column as wide as its header. -/
def centred (header : String) (b : Bit) : String :=
  let width := header.length
  let before := (width - 1) / 2
  let after := width - 1 - before
  " " ++ Text.repeatText before " " ++ b.text ++ Text.repeatText after " " ++ " "

/-- The lines of a grid. -/
def gridLines (headers : List String) (rows : List (List Bit)) : List String :=
  [gridRule "┏" "━" "┳" "┓" headers,
    gridLine "┃" "┃" "┃" (headers.map fun h => " " ++ h ++ " "),
    gridRule "┡" "━" "╇" "┩" headers] ++
  rows.map (fun row => gridLine "│" "│" "│" (headers.zipWith centred row)) ++
  [gridRule "└" "─" "┴" "┘" headers]

/-- A truth table drawn with box characters. -/
def TruthTable.grid (t : TruthTable) (fragments : Bool) : List String :=
  gridLines (t.headers fragments) (t.rows fragments)

end BoolCalc
