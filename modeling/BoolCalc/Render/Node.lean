import BoolCalc.Expr.Basic
import BoolCalc.OrderedMap

/-!
# Drawn Trees

An expression as a tree of addressed nodes, ready to be drawn.

Each node has an address: the address of the root is chosen by the caller,
and every step down appends a letter, `D` to the operand of a unary node and
`L` or `R` to the operands of a binary one. Whoever draws the tree uses the
addresses to find the nodes again, and to know which of them to join.

## Main definitions

* `Drawn`: An expression whose nodes have addresses.
* `Expr.draw`: The drawn form of an expression.
* `Expr.nodeIndex`: The sub-expression at each address.
* `Expr.nodeEdges`: The pairs of addresses to be joined.
-/

namespace BoolCalc

/-- The kind of a node, as far as drawing is concerned. -/
inductive NodeKind
  | constant
  | unaryOperator
  | binaryOperator
  deriving DecidableEq, Repr

/-- The name of a kind of node. -/
def NodeKind.name : NodeKind → String
  | constant => "constant"
  | unaryOperator => "unary_operator"
  | binaryOperator => "binary_operator"

/-- An expression whose nodes have addresses. -/
inductive Drawn
  | leaf (id symbol : String)
  | unary (id op : String) (operand : Drawn)
  | binary (id op : String) (left right : Drawn)
  deriving DecidableEq, Repr

namespace Drawn

/-- The address of the root. -/
def id : Drawn → String
  | leaf id _ | unary id _ _ | binary id _ _ _ => id

/-- What the root shows: its symbol or its operator. -/
def symbol : Drawn → String
  | leaf _ symbol => symbol
  | unary _ op _ | binary _ op _ _ => op

/-- The kind of the root. Every leaf counts as a constant. -/
def kind : Drawn → NodeKind
  | leaf _ _ => .constant
  | unary _ _ _ => .unaryOperator
  | binary _ _ _ _ => .binaryOperator

/-- The children of the root, from left to right. -/
def children : Drawn → List Drawn
  | leaf _ _ => []
  | unary _ _ operand => [operand]
  | binary _ _ left right => [left, right]

end Drawn

namespace Expr

/-- The address a root has unless a caller chooses another. -/
def defaultRootId : String := "Main"

/-- The address of an operand below the given one. -/
def operandOf (id : String) : String := id ++ "D"

/-- The address of a left operand below the given one. -/
def leftOf (id : String) : String := id ++ "L"

/-- The address of a right operand below the given one. -/
def rightOf (id : String) : String := id ++ "R"

/-- The addresses of the operands of an expression. -/
def childIds (id : String) : Expr → List String
  | terminal _ => []
  | unary _ _ => [operandOf id]
  | binary _ _ _ => [leftOf id, rightOf id]

/-- The drawn form of an expression. -/
def draw (id : String) : Expr → Drawn
  | terminal symbol => .leaf id symbol
  | unary op operand => .unary id op (operand.draw (operandOf id))
  | binary op left right => .binary id op (left.draw (leftOf id)) (right.draw (rightOf id))

/-- Every address with the sub-expression at it, parents before children and
    left before right. -/
def nodeIndex (id : String) : Expr → OrderedMap String Expr
  | terminal symbol => OrderedMap.empty.insert id (terminal symbol)
  | unary op operand =>
    (OrderedMap.empty.insert id (unary op operand)).union (operand.nodeIndex (operandOf id))
  | binary op left right =>
    ((OrderedMap.empty.insert id (binary op left right)).union (left.nodeIndex (leftOf id))).union
      (right.nodeIndex (rightOf id))

/-- The pairs of a parent's and a child's address, in the order of the
    children. -/
def nodeEdges (id : String) : Expr → List (String × String)
  | terminal _ => []
  | unary _ operand => (id, operandOf id) :: operand.nodeEdges (operandOf id)
  | binary _ left right =>
    (id, leftOf id) :: left.nodeEdges (leftOf id) ++
      (id, rightOf id) :: right.nodeEdges (rightOf id)

end Expr

end BoolCalc
