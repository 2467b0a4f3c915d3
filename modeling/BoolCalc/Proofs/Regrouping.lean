import BoolCalc.Proofs.Limits

/-!
# Regrouping Operands

Operands that are joined by one operator have the same outcome however they
are grouped.

For an evaluation that succeeds this is the associativity of the connectives.
It needs a little care where a context has not been checked: a value that is
neither of the bits counts one way as an operand and is replaced by a bit as
soon as it has been joined to something. What makes this harmless is that the
bit counts in the same way as the value it replaces did, which is what
`LawfulTwoValued` asks for.

An evaluation that fails does so at the first fault from the left, and
regrouping leaves the operands where they are. Since a binary node evaluates
both operands before it does anything else, three operands are evaluated one
after another in either grouping.

`SameOutcome` is about evaluation without a limit. With limits, one grouping
can be refused where the other is not, as its tree is higher, and that is the
only difference there can be (`evaluatesAs`).

## Main definitions

* `LawfulTwoValued`: A bit counts as itself.
* `Expr.SameOutcome`: Two trees have one outcome under all bindings.
* `Expr.EvaluatesAs`: Two trees have one outcome in all contexts.

## Theorems

* `apply_assoc`: Connectives are associative.
* `sameOutcome_assoc`: So are trees, with their errors.
* `evaluatesAs`: What this means for evaluation in a context.
-/

namespace BoolCalc

/-- A type with bits in which each of them counts as itself. -/
class LawfulTwoValued (α : Type) [TwoValued α] : Prop where
  /-- Only the bit one counts as one. -/
  isOne_ofBit (b : Bit) : TwoValued.isOne (TwoValued.ofBit b : α) = decide (b = .one)
  /-- Only the bit zero counts as zero. -/
  isZero_ofBit (b : Bit) : TwoValued.isZero (TwoValued.ofBit b : α) = decide (b = .zero)

instance : LawfulTwoValued Bit where
  isOne_ofBit _ := rfl
  isZero_ofBit _ := rfl

instance : LawfulTwoValued Value where
  isOne_ofBit b := by cases b <;> decide
  isZero_ofBit b := by cases b <;> decide

section Connectives

variable {α : Type} [TwoValued α] [LawfulTwoValued α]

/-- What two operands come to counts as what decided it. -/
theorem BinaryOp.apply_assoc (op : BinaryOp) (x y z : α) :
    op.apply (TwoValued.ofBit (op.apply x y) : α) z =
      op.apply x (TwoValued.ofBit (op.apply y z) : α) := by
  cases op with
  | disj =>
      simp only [apply, LawfulTwoValued.isOne_ofBit]
      cases TwoValued.isOne x <;> cases TwoValued.isOne y <;> cases TwoValued.isOne z <;> rfl
  | conj =>
      simp only [apply, LawfulTwoValued.isZero_ofBit]
      cases TwoValued.isZero x <;> cases TwoValued.isZero y <;> cases TwoValued.isZero z <;> rfl

end Connectives

namespace Expr

/-- The operands of a connective are evaluated from left to right. -/
theorem eval_connect {α : Type} [TwoValued α] (lookup : String → Option α) (op : BinaryOp)
    (l r : Expr) :
    (connect op l r).eval lookup = (do
      let x ← l.eval lookup
      let y ← r.eval lookup
      return TwoValued.ofBit (op.apply x y)) := by
  simp only [connect, eval, applyBinary, BinaryOp.ofText?_text]
  cases l.eval lookup with
  | error err => rfl
  | ok x =>
      cases r.eval lookup with
      | error err => rfl
      | ok y => rfl

/-- Two trees have the same outcome under all bindings, of whatever type with
    bits the bound values are. -/
def SameOutcome (e e' : Expr) : Prop :=
  ∀ (α : Type) [TwoValued α] [LawfulTwoValued α] (lookup : String → Option α),
    e.eval lookup = e'.eval lookup

theorem SameOutcome.refl (e : Expr) : e.SameOutcome e := fun _ _ _ _ => rfl

theorem SameOutcome.trans {e e' e'' : Expr} (h : e.SameOutcome e') (h' : e'.SameOutcome e'') :
    e.SameOutcome e'' :=
  fun α _ _ lookup => (h α lookup).trans (h' α lookup)

/-- The left operand may be exchanged for one with the same outcome. -/
theorem SameOutcome.connect_left {l l' : Expr} (h : l.SameOutcome l') (op : BinaryOp) (r : Expr) :
    (connect op l r).SameOutcome (connect op l' r) := by
  intro α _ _ lookup
  rw [eval_connect, eval_connect, h α lookup]

/-- Three operands joined by one operator have the same outcome in either
    grouping, the first fault from the left included. -/
theorem sameOutcome_assoc (op : BinaryOp) (x y z : Expr) :
    (connect op (connect op x y) z).SameOutcome (connect op x (connect op y z)) := by
  intro α _ _ lookup
  simp only [eval_connect, bind_assoc, pure_bind, BinaryOp.apply_assoc]

/-- Two trees evaluate alike in every context: in one that is checked wherever
    neither of them is refused for its depth, and in one that is not checked. -/
structure EvaluatesAs (e e' : Expr) : Prop where
  /-- The two are alike in a context that is checked. -/
  checked (limit limit' : Nat) (context : Context) :
    evaluate limit e context ≠ .error .tooDeep → evaluate limit' e' context ≠ .error .tooDeep →
      evaluate limit e context = evaluate limit' e' context
  /-- The two are alike in a context that is not checked. -/
  unchecked (context : Context) : evaluateUnchecked e context = evaluateUnchecked e' context

/-- Trees with the same outcome under all bindings evaluate alike. -/
theorem SameOutcome.evaluatesAs {e e' : Expr} (h : e.SameOutcome e') : e.EvaluatesAs e' where
  checked limit limit' context hdeep hdeep' := by
    rw [evaluate_eq_eval hdeep, evaluate_eq_eval hdeep']
    cases context.bindings with
    | error err => rfl
    | ok bound => exact h Bit bound.get?
  unchecked context := h Value fun symbol => context.get? (.text symbol)

end Expr

end BoolCalc
