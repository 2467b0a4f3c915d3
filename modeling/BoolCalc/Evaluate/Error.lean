import BoolCalc.Value

/-!
# Evaluation Errors

Why an expression has no value in a context.

Two of the errors are about the context itself and are found before the
expression is looked at; the others are about a node of the expression.

The errors about the context show what they complain of, and so there are no
such errors about a value that cannot be written down. Where one would be due,
the evaluation fails with the fault of the writing instead.

## Main definitions

* `EvalError`: The ways in which an evaluation can fail.
* `EvalError.showing`: An error that shows a value, or the fault of writing it.
* `EvalError.message`: The text of an error.
-/

namespace BoolCalc

/-- The two shapes of node that hold an operator. -/
inductive OperatorNode
  | unary
  | binary
  deriving DecidableEq, Repr

/-- How messages name a shape of node. -/
def OperatorNode.name : OperatorNode → String
  | unary => "Unary"
  | binary => "Binary"

/-- A way in which an evaluation can fail. An error that shows a key or a value
    carries the fact that it has a written form. -/
inductive EvalError
  | invalidName (key : Scalar) (h : (Value.scalar key).HasLiteral := by decide)
  | invalidBit (name : String) (value : Value) (h : value.HasLiteral := by decide)
  | unwritten (fault : WritingFault)
  | undefinedVariable (symbol : String)
  | invalidOperator (node : OperatorNode) (op : String)
  | tooDeep
  deriving Repr

namespace EvalError

/-- The error that shows a value, or what becomes of it if the value cannot be
    written down. -/
def showing (shown : Value) (err : shown.HasLiteral → EvalError) : EvalError :=
  match h : shown.literal with
  | .ok _ => err (by rw [Value.HasLiteral, h, Except.isOk, Except.toBool])
  | .error fault => .unwritten fault

/-- The text of an error. -/
def message : EvalError → String
  | invalidName key h =>
    "Invalid variable name: " ++ (Value.scalar key).text h ++ " (expected a single character)"
  | invalidBit name value h =>
    "Invalid value for " ++ name ++ ": " ++ value.text h ++ " (expected '0' or '1')"
  | unwritten fault => fault.message
  | undefinedVariable symbol => "Runtime Error: " ++ symbol ++ " is not defined"
  | invalidOperator node op => node.name ++ " node contains unknown operator: " ++ op
  | tooDeep => "Expression nests too deeply to evaluate"

end EvalError

end BoolCalc
