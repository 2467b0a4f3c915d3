import BoolCalc.Render.Node

/-!
# Outlines

A drawn tree as lines of text with guides.

Each node stands on a line of its own, its symbol followed by its address.
Children are indented by four columns below their parent, and the columns
show by guides which children belong together.

## Main definitions

* `Drawn.outline`: The lines of a drawn tree.
-/

namespace BoolCalc

namespace Drawn

/-- What a node shows on its line. -/
def label (id symbol : String) : String := symbol ++ "  " ++ id

/-- The lines of a child that has siblings after it. -/
def guideMiddle : List String → List String
  | [] => []
  | first :: rest => ("├── " ++ first) :: rest.map ("│   " ++ ·)

/-- The lines of a last child. -/
def guideLast : List String → List String
  | [] => []
  | first :: rest => ("└── " ++ first) :: rest.map ("    " ++ ·)

/-- The lines of a drawn tree. -/
def outline : Drawn → List String
  | leaf id symbol => [label id symbol]
  | unary id op operand => label id op :: guideLast operand.outline
  | binary id op left right =>
    label id op :: guideMiddle left.outline ++ guideLast right.outline

end Drawn

end BoolCalc
