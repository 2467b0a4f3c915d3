import BoolCalc.Expr.Basic

/-!
# Fragments

The binary sub-expressions of an expression, each after those of its own
operands.

Evaluating the fragments in this order shows how the value of the whole comes
about one operator at a time. Only binary nodes count: a negation is passed
through, and a leaf contributes nothing. When the expression is itself binary
it is its own last fragment.

## Main definitions

* `Expr.pushFragments`: Append the fragments to what is already collected.
* `Expr.fragments`: The fragments in order.

## Theorems

* `pushFragments_toList`: Collecting leaves what was there and appends the
  fragments.
* `getLast?_of_isBinary`: A binary expression is its own last fragment.
-/

namespace BoolCalc

namespace Expr

/-- Append the fragments of an expression to the expressions collected so
    far. -/
def pushFragments (collected : Array Expr) : Expr → Array Expr
  | terminal _ => collected
  | unary _ operand => operand.pushFragments collected
  | binary op left right =>
    (right.pushFragments (left.pushFragments collected)).push (binary op left right)

/-- The binary sub-expressions, operands before the expressions they are
    operands of and left before right. -/
def fragments (e : Expr) : List Expr := (e.pushFragments #[]).toList

/-- Collecting leaves what was there and appends the fragments. -/
theorem pushFragments_toList (e : Expr) (collected : Array Expr) :
    (e.pushFragments collected).toList = collected.toList ++ e.fragments := by
  unfold fragments
  induction e generalizing collected with
  | terminal symbol => simp [pushFragments]
  | unary op operand ih => simp only [pushFragments]; exact ih collected
  | binary op left right ihl ihr =>
    simp only [pushFragments, Array.toList_push]
    rw [ihr, ihl, ihr (left.pushFragments #[])]
    simp only [List.append_assoc]

@[simp] theorem fragments_unary (op : String) (operand : Expr) :
    (unary op operand).fragments = operand.fragments := rfl

@[simp] theorem fragments_binary (op : String) (left right : Expr) :
    (binary op left right).fragments =
      left.fragments ++ right.fragments ++ [binary op left right] := by
  rw [fragments, pushFragments, Array.toList_push, pushFragments_toList]
  rfl

/-- A binary expression is its own last fragment. -/
theorem getLast?_of_isBinary {e : Expr} (h : e.isBinary = true) :
    e.fragments.getLast? = some e := by
  cases e with
  | terminal symbol | unary op operand => exact absurd h nofun
  | binary op left right => rw [fragments_binary, List.getLast?_concat]

end Expr

end BoolCalc
