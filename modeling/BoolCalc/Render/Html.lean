import BoolCalc.Render.Node
import BoolCalc.Text.Join

/-!
# HTML Tables

A drawn tree as nested HTML tables.

A leaf is a span. An operator is a table of two rows: the operator's span
over the whole width, and below it one cell for each operand. Spans carry the
address and the kind of their node. The lines are indented by a padding that
the caller chooses, three levels for each step down.

## Main definitions

* `escapeHtml`: A text in which nothing can be taken for markup.
* `Drawn.htmlLines`: The lines of a drawn tree.
* `Expr.html`: An expression as HTML.
-/

namespace BoolCalc

/-- A character in a form that cannot be taken for markup. -/
def escapeHtmlChar (c : Char) : List Char :=
  if c = '&' then ['&', 'a', 'm', 'p', ';']
  else if c = '<' then ['&', 'l', 't', ';']
  else if c = '>' then ['&', 'g', 't', ';']
  else if c = '"' then ['&', 'q', 'u', 'o', 't', ';']
  else if c = '\'' then ['&', '#', 'x', '2', '7', ';']
  else [c]

/-- A text in which nothing can be taken for markup. -/
def escapeHtml (s : String) : String :=
  String.ofList (s.toList.flatMap escapeHtmlChar)

namespace Drawn

/-- The span of a node. -/
def span (id : String) (kind : NodeKind) (symbol : String) : String :=
  "<span id=\"" ++ escapeHtml id ++ "\" class=\"" ++ kind.name ++ "\">" ++
    escapeHtml symbol ++ "</span>"

/-- The padding at the beginning of a line; none for a negative level. -/
def indentation (padding : String) (level : Int) : String := Text.repeatText level.toNat padding

/-- The lines of an operator, around the lines of its operands. -/
def operatorLines (padding : String) (level : Int) (span : String) (header : String)
    (operands : List (List String)) : List String :=
  let pad (extra : Int) (line : String) : String := indentation padding (level + extra) ++ line
  [pad 0 "<table cellpadding=\"1\" cellspacing=\"1\">", pad 1 "<tr>",
    pad 2 ("<th" ++ header ++ ">" ++ span ++ "</th>"), pad 1 "</tr>", pad 1 "<tr>"] ++
  operands.flatMap (fun lines => pad 2 "<td valign=\"top\">" :: lines ++ [pad 2 "</td>"]) ++
  [pad 1 "</tr>", pad 0 "</table>"]

/-- The lines of a drawn tree. -/
def htmlLines (padding : String) (level : Int) : Drawn → List String
  | leaf id symbol => [indentation padding level ++ span id .constant symbol]
  | unary id op operand =>
    operatorLines padding level (span id .unaryOperator op) ""
      [operand.htmlLines padding (level + 3)]
  | binary id op left right =>
    operatorLines padding level (span id .binaryOperator op) " colspan=\"2\""
      [left.htmlLines padding (level + 3), right.htmlLines padding (level + 3)]

end Drawn

/-- An expression as HTML. -/
def Expr.html (e : Expr) (id padding : String) (level : Int) : String :=
  Text.joinWith "\n" ((e.draw id).htmlLines padding level)

end BoolCalc
