import BoolCalc.Bit

/-!
# Operators

The connectives that an expression can hold: one unary, two binary.

A conjunction binds tighter than a disjunction, and both group to the left.
The precedence is a number only because a caller of the parser may ask for
an expression whose operators all bind tighter than a bound of its own.

## Main definitions

* `BinaryOp`: Conjunction and disjunction.
* `BinaryOp.precedence`: How tightly an operator binds.
* `BinaryOp.apply`: What an operator computes.
-/

namespace BoolCalc

/-- The text of the one unary operator. -/
def negationText : String := "!"

/-- A connective of two operands. -/
inductive BinaryOp
  | conj
  | disj
  deriving DecidableEq, Repr

namespace BinaryOp

/-- The character an operator is written as. -/
def char : BinaryOp → Char
  | conj => '*'
  | disj => '+'

/-- The text an operator is written as. -/
def text : BinaryOp → String
  | conj => "*"
  | disj => "+"

/-- The operator a text denotes. -/
def ofText? (s : String) : Option BinaryOp :=
  if s = "*" then some conj else if s = "+" then some disj else none

/-- How tightly an operator binds; the higher, the tighter. -/
def precedence : BinaryOp → Int
  | conj => 2
  | disj => 1

/-- What an operator computes. A disjunction asks only whether an operand is
    one and a conjunction only whether an operand is zero, so a value that is
    neither counts as zero to the first and as one to the second. -/
def apply {α : Type} [TwoValued α] : BinaryOp → α → α → Bit
  | disj, x, y => .ofBool (TwoValued.isOne x || TwoValued.isOne y)
  | conj, x, y => .ofBool (!(TwoValued.isZero x || TwoValued.isZero y))

@[simp] theorem ofText?_text (op : BinaryOp) : ofText? op.text = some op := by
  cases op <;> decide

theorem toList_text (op : BinaryOp) : op.text.toList = [op.char] := by
  cases op <;> rfl

end BinaryOp

/-- What the negation computes: zero for a one, and one for anything else. -/
def negate {α : Type} [TwoValued α] (x : α) : Bit :=
  .ofBool (!TwoValued.isOne x)

end BoolCalc
