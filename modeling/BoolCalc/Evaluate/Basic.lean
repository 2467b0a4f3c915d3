import BoolCalc.Evaluate.Context
import BoolCalc.Expr.Fragments

/-!
# Evaluation

The value of an expression when its variables are bound.

`Expr.eval` is the meaning of an expression over any type whose values may
count as bits. A leaf that reads `0` or `1` is a constant whatever the
bindings say of it. A negation looks at its operator before its operand. A
binary node evaluates both operands, left first, before it looks at its
operator, so an unbound variable is reported even where the other operand
would decide the value.

`Expr.evalWithin` does the same but gives up on paths that are longer than a
limit. It differs from the plain evaluation only by that error.

`evaluate` and `evaluateFragments` are what callers use: they check the
context first, then evaluate within the limit.

## Main definitions

* `Expr.eval`: The value of an expression.
* `Expr.evalWithin`: The value, unless the expression is too deep.
* `evaluate`: The value in a context that has yet to be checked.
* `evaluateFragments`: The printed form and the value of each fragment.

## Theorems

* `evalWithin_eq_eval`: Within its height an expression is never too deep.
-/

namespace BoolCalc

namespace Expr

variable {α : Type} [TwoValued α]

/-- The value of a leaf. -/
def evalSymbol (lookup : String → Option α) (symbol : String) : Except EvalError α :=
  match Bit.ofText? symbol with
  | some b => .ok (TwoValued.ofBit b)
  | none =>
    match lookup symbol with
    | some v => .ok v
    | none => .error (.undefinedVariable symbol)

/-- The value of a binary node whose operands have these values. -/
def applyBinary (op : String) (x y : α) : Except EvalError α :=
  match BinaryOp.ofText? op with
  | some op => .ok (TwoValued.ofBit (op.apply x y))
  | none => .error (.invalidOperator .binary op)

/-- The value of an expression. -/
def eval (lookup : String → Option α) : Expr → Except EvalError α
  | terminal symbol => evalSymbol lookup symbol
  | unary op operand =>
    if op = negationText then
      match operand.eval lookup with
      | .ok v => .ok (TwoValued.ofBit (negate v))
      | .error e => .error e
    else .error (.invalidOperator .unary op)
  | binary op left right =>
    match left.eval lookup with
    | .error e => .error e
    | .ok x =>
      match right.eval lookup with
      | .error e => .error e
      | .ok y => applyBinary op x y

/-- The value of an expression, given up on when a path of more than `limit`
    edges has to be followed. -/
def evalWithin (lookup : String → Option α) : Nat → Expr → Except EvalError α
  | _, terminal symbol => evalSymbol lookup symbol
  | limit, unary op operand =>
    if op = negationText then
      match limit with
      | 0 => .error .tooDeep
      | limit + 1 =>
        match operand.evalWithin lookup limit with
        | .ok v => .ok (TwoValued.ofBit (negate v))
        | .error e => .error e
    else .error (.invalidOperator .unary op)
  | limit, binary op left right =>
    match limit with
    | 0 => .error .tooDeep
    | limit + 1 =>
      match left.evalWithin lookup limit with
      | .error e => .error e
      | .ok x =>
        match right.evalWithin lookup limit with
        | .error e => .error e
        | .ok y => applyBinary op x y

/-- An expression no higher than the limit is never too deep. -/
theorem evalWithin_eq_eval (lookup : String → Option α) {limit : Nat} {e : Expr}
    (h : e.height ≤ limit) : e.evalWithin lookup limit = e.eval lookup := by
  induction e generalizing limit with
  | terminal symbol => simp only [evalWithin, eval]
  | unary op operand ih =>
    cases limit with
    -- A node needs a level of its own.
    | zero => simp [height] at h
    | succ limit =>
      simp only [height, Nat.add_le_add_iff_right] at h
      simp only [evalWithin, eval, ih h]
  | binary op left right ihl ihr =>
    cases limit with
    | zero => simp [height] at h
    | succ limit =>
      simp only [height, Nat.add_le_add_iff_right] at h
      simp only [evalWithin, eval, ihl (Nat.le_trans (Nat.le_max_left ..) h),
        ihr (Nat.le_trans (Nat.le_max_right ..) h)]

end Expr

/-- The value of an expression in a context. -/
def evaluate (limit : Nat) (e : Expr) (context : Context) : Except EvalError Bit :=
  match context.bindings with
  | .error err => .error err
  | .ok bound => e.evalWithin bound.get? limit

/-- The printed form of a fragment with its value. -/
def evaluateStep (limit : Nat) (bound : Bindings) (e : Expr) : Except EvalError (String × Bit) :=
  if limit < e.height then .error .tooDeep
  else (e.evalWithin bound.get? limit).map fun b => (e.text, b)

/-- The printed forms of fragments with their values in a context. -/
def evaluateFragments (limit : Nat) (fragments : List Expr) (context : Context) :
    Except EvalError (List (String × Bit)) :=
  match context.bindings with
  | .error err => .error err
  | .ok bound => fragments.mapM (evaluateStep limit bound)

/-- The value of an expression in a context that is not checked at all. -/
def evaluateUnchecked (e : Expr) (context : Context) : Except EvalError Value :=
  e.eval fun symbol => context.get? (.text symbol)

end BoolCalc
