import BoolCalc.Operator

/-!
# Expressions

Boolean expressions as trees.

An operator and a symbol are texts, not members of a fixed set: a tree may be
put together by hand around every check, and such a tree still has a printed
form, fragments, a drawing, and an outcome when it is evaluated. What the
parser builds, and what passes validation, uses only the operators of the
algebra and symbols of one character.

The printed form puts every binary expression in parentheses and nothing
else, so it says how the expression is grouped without reference to
precedence.

## Main definitions

* `Expr`: An expression.
* `Expr.negation`, `Expr.connect`, `Expr.symbol`: The well-formed nodes.
* `Expr.text`: The printed form.
* `Expr.height`: The length of the longest path to a leaf.
-/

namespace BoolCalc

/-- A Boolean expression. -/
inductive Expr
  | terminal (symbol : String)
  | unary (op : String) (operand : Expr)
  | binary (op : String) (left right : Expr)
  deriving DecidableEq, Repr

namespace Expr

/-- A leaf of one character. -/
def symbol (c : Char) : Expr := .terminal (String.singleton c)

/-- The negation of an expression. -/
def negation (e : Expr) : Expr := .unary negationText e

/-- Two expressions joined by an operator. -/
def connect (op : BinaryOp) (left right : Expr) : Expr := .binary op.text left right

/-- The printed form, in which every binary expression stands in parentheses. -/
def text : Expr → String
  | terminal symbol => symbol
  | unary op operand => op ++ operand.text
  | binary op left right => "(" ++ left.text ++ op ++ right.text ++ ")"

/-- The number of edges on the longest path down to a leaf. -/
def height : Expr → Nat
  | terminal _ => 0
  | unary _ operand => operand.height + 1
  | binary _ left right => max left.height right.height + 1

/-- Whether the outermost node is binary. -/
def isBinary : Expr → Bool
  | binary .. => true
  | terminal _ | unary .. => false

end Expr

end BoolCalc
