import BoolCalc.Evaluate.Basic
import BoolCalc.Proofs.Regular
import Mathlib

/-!
# What Expressions Mean

The value of a tree as a formula, and that evaluation computes it.

Evaluation is a walk that can break off: it stops at the first variable from
the left that is not bound. `Expr.value` is what a formula means when every
variable has a value, which is a plain recursion without errors. For a regular
tree the two are connected by `eval_of_regular`, which covers every outcome:
the walk breaks off at the first unbound variable, and if there is none it
computes the value. Everything about evaluation that follows is derived from
it, and no later proof opens the walk again.

A meaning depends on nothing but the variables of the tree (`value_congr`), so
bindings may be replaced by others that agree on them. The fragments of a tree
are trees of their own with no more variables and no greater height, and so
they have a value wherever the whole has one.

## Main definitions

* `Expr.vars`: The variables of a tree, from left to right.
* `Expr.value`: The value of a tree under an assignment.
* `firstUnbound`: The first of some variables that is not bound.
* `assigned`: Bindings as an assignment.

## Theorems

* `eval_of_regular`: Every outcome of an evaluation.
* `eval_eq_value`: Where all variables are bound the outcome is the value.
* `bound_of_eval`: Where there is an outcome all variables are bound.
* `value_congr`: A value depends on the variables of the tree alone.
* `regular_of_fragment`, `vars_of_fragment`, `height_of_fragment`: What
  fragments take over from the whole.
-/

namespace BoolCalc

/-- The first of some symbols that is bound to nothing. -/
def firstUnbound (lookup : String → Option Bit) (symbols : List String) : Option String :=
  symbols.find? fun s => (lookup s).isNone

/-- The assignment that bindings describe, in which everything else is zero. -/
def assigned (lookup : String → Option Bit) (s : String) : Bit := (lookup s).getD .zero

theorem firstUnbound_append (lookup : String → Option Bit) (ss ts : List String) :
    firstUnbound lookup (ss ++ ts) = (firstUnbound lookup ss).or (firstUnbound lookup ts) :=
  List.find?_append

/-- All of some symbols are bound exactly if none is the first that is not. -/
theorem firstUnbound_eq_none_iff (lookup : String → Option Bit) (symbols : List String) :
    firstUnbound lookup symbols = none ↔ ∀ s ∈ symbols, lookup s = some (assigned lookup s) := by
  simp only [firstUnbound, List.find?_eq_none, assigned]
  refine forall₂_congr fun s _ => ?_
  cases lookup s with
  | none => exact iff_of_false (fun h => h rfl) nofun
  | some b => exact iff_of_true nofun rfl

namespace Expr

/-- The symbols of a tree that are no constants, from left to right. -/
def vars (e : Expr) : List String := e.leaves.filter fun s => (Bit.ofText? s).isNone

/-- The value of a tree when its variables have these values. A binary operator
    outside the algebra, which no regular tree holds, counts as zero. -/
def value (assignment : String → Bit) : Expr → Bit
  | terminal symbol => (Bit.ofText? symbol).getD (assignment symbol)
  | unary _ operand => negate (operand.value assignment)
  | binary op left right =>
    match BinaryOp.ofText? op with
    | some op => op.apply (left.value assignment) (right.value assignment)
    | none => .zero

theorem mem_vars {e : Expr} {s : String} :
    s ∈ e.vars ↔ s ∈ e.leaves ∧ Bit.ofText? s = none := by
  rw [vars, List.mem_filter, Option.isNone_iff_eq_none]

theorem vars_negation (e : Expr) : e.negation.vars = e.vars := rfl

theorem vars_binary (op : String) (l r : Expr) : (binary op l r).vars = l.vars ++ r.vars :=
  List.filter_append l.leaves r.leaves

theorem vars_connect (op : BinaryOp) (l r : Expr) :
    (connect op l r).vars = l.vars ++ r.vars :=
  vars_binary op.text l r

theorem value_negation (assignment : String → Bit) (e : Expr) :
    e.negation.value assignment = negate (e.value assignment) := rfl

theorem value_connect (assignment : String → Bit) (op : BinaryOp) (l r : Expr) :
    (connect op l r).value assignment = op.apply (l.value assignment) (r.value assignment) := by
  simp only [connect, value, BinaryOp.ofText?_text]

/-- A value depends on the variables of the tree alone. -/
theorem value_congr {e : Expr} {σ τ : String → Bit} (h : ∀ s ∈ e.vars, σ s = τ s) :
    e.value σ = e.value τ := by
  induction e with
  | terminal symbol =>
      -- A constant has its own value, and any other symbol is a variable.
      cases hs : Bit.ofText? symbol with
      | some b => simp only [value, hs, Option.getD_some]
      | none =>
          have hmem : symbol ∈ (terminal symbol).vars :=
            mem_vars.mpr ⟨List.mem_singleton_self symbol, hs⟩
          simp only [value, hs, Option.getD_none, h symbol hmem]
  | unary op operand ih => simp only [value, ih h]
  | binary op left right ihl ihr =>
      rw [vars_binary] at h
      have hl := ihl fun s hs => h s (List.mem_append_left _ hs)
      have hr := ihr fun s hs => h s (List.mem_append_right _ hs)
      simp only [value, hl, hr]

section Outcome

variable {lookup : String → Option Bit}

theorem eval_symbol (lookup : String → Option Bit) (c : Char) :
    (symbol c).eval lookup = match firstUnbound lookup (symbol c).vars with
      | some s => .error (.undefinedVariable s)
      | none => .ok ((symbol c).value (assigned lookup)) := by
  simp only [symbol, eval, evalSymbol, vars, leaves, value]
  -- A constant needs no binding, and a variable is looked up.
  cases hs : Bit.ofText? (String.singleton c) with
  | some b =>
      rw [List.filter_cons_of_neg (by rw [hs]; exact Bool.false_ne_true)]
      rfl
  | none =>
      rw [List.filter_cons_of_pos (by rw [hs]; rfl)]
      cases hb : lookup (String.singleton c) with
      | none => simp only [firstUnbound, List.find?_cons, hb, Option.isNone_none]
      | some b =>
          simp only [firstUnbound, List.filter_nil, List.find?_cons, List.find?_nil, hb,
            Option.isNone_some, Option.getD_none, assigned, Option.getD_some]

/-- Every outcome of an evaluation. A regular tree has a value exactly if all
    of its variables are bound, and otherwise the first one from the left that
    is not is reported, however the other operands come out. -/
theorem eval_of_regular {e : Expr} (h : e.Regular) (lookup : String → Option Bit) :
    e.eval lookup = match firstUnbound lookup e.vars with
      | some s => .error (.undefinedVariable s)
      | none => .ok (e.value (assigned lookup)) := by
  induction h with
  | symbol hc => exact eval_symbol lookup _
  | @negation e _ ih =>
      rw [vars_negation, value_negation, negation, eval, if_pos rfl, ih]
      cases firstUnbound lookup e.vars with
      | some s | none => rfl
  | @connect op l r _ _ ihl ihr =>
      rw [vars_connect, value_connect, firstUnbound_append, connect, eval, ihl]
      -- What is unbound on the left comes before anything on the right.
      cases firstUnbound lookup l.vars with
      | some s => rfl
      | none =>
          rw [ihr]
          cases firstUnbound lookup r.vars with
          | some s => rfl
          | none => simp only [applyBinary, BinaryOp.ofText?_text, Option.or]; rfl

/-- Where all variables are bound the outcome is the value. -/
theorem eval_eq_value {e : Expr} (h : e.Regular) {assignment : String → Bit}
    (hbound : ∀ s ∈ e.vars, lookup s = some (assignment s)) :
    e.eval lookup = .ok (e.value assignment) := by
  -- On the variables the lookup and the assignment are the same.
  have hsame : ∀ s ∈ e.vars, assigned lookup s = assignment s := by
    intro s hs
    rw [assigned, hbound s hs, Option.getD_some]
  have hnone : firstUnbound lookup e.vars = none := by
    refine (firstUnbound_eq_none_iff _ _).mpr fun s hs => ?_
    rw [hsame s hs, hbound s hs]
  rw [eval_of_regular h, hnone]
  exact congrArg Except.ok (value_congr hsame)

/-- Where there is an outcome all variables are bound, and it is the value. -/
theorem bound_of_eval {e : Expr} (h : e.Regular) {b : Bit} (hok : e.eval lookup = .ok b) :
    (∀ s ∈ e.vars, lookup s = some (assigned lookup s)) ∧
      b = e.value (assigned lookup) := by
  rw [eval_of_regular h] at hok
  -- A variable that is unbound would be reported.
  cases hfirst : firstUnbound lookup e.vars with
  | some s =>
      rw [hfirst] at hok
      exact absurd hok nofun
  | none =>
      rw [hfirst] at hok
      exact ⟨(firstUnbound_eq_none_iff _ _).mp hfirst, (Except.ok.inj hok).symm⟩

end Outcome

/-- An evaluation that comes to an end has followed every path of the tree, so
    the limit was not exceeded. -/
theorem height_le_of_evalWithin {α : Type} [TwoValued α] {lookup : String → Option α}
    {limit : Nat} {e : Expr} {v : α} (h : e.evalWithin lookup limit = .ok v) :
    e.height ≤ limit := by
  induction e generalizing limit v with
  | terminal symbol => exact Nat.zero_le _
  -- A node takes one level, and its operands have one less.
  | unary op operand ih =>
      cases limit with
      | zero =>
          simp only [evalWithin] at h
          split at h
          · cases h
          · cases h
      | succ limit =>
          simp only [evalWithin] at h
          by_cases hop : op = negationText
          · rw [if_pos hop] at h
            cases ho : operand.evalWithin lookup limit with
            | error err => simp only [ho, reduceCtorEq] at h
            | ok x => exact Nat.succ_le_succ (ih ho)
          · rw [if_neg hop] at h
            cases h
  | binary op left right ihl ihr =>
      cases limit with
      | zero => simp only [evalWithin, reduceCtorEq] at h
      | succ limit =>
          simp only [evalWithin] at h
          -- Both operands have come to a value, so both have been followed to their leaves.
          cases hl : left.evalWithin lookup limit with
          | error err => simp only [hl, reduceCtorEq] at h
          | ok x =>
              cases hr : right.evalWithin lookup limit with
              | error err => simp only [hl, hr, reduceCtorEq] at h
              | ok y => exact Nat.succ_le_succ (Nat.max_le.mpr ⟨ihl hl, ihr hr⟩)

section Fragments

variable {e f : Expr}

/-- The fragments of a binary tree are those of its sides, and itself. -/
theorem mem_fragments_binary {op : String} {l r : Expr} :
    f ∈ (binary op l r).fragments ↔ (f ∈ l.fragments ∨ f ∈ r.fragments) ∨ f = binary op l r := by
  rw [fragments_binary, List.mem_append, List.mem_append, List.mem_singleton]

theorem regular_of_fragment (h : e.Regular) (hf : f ∈ e.fragments) : f.Regular := by
  induction h with
  | symbol _ => exact absurd hf List.not_mem_nil
  | negation _ ih => exact ih hf
  | connect op hl hr ihl ihr =>
      -- A fragment lies in one of the operands, or it is the node itself.
      rcases mem_fragments_binary.mp hf with (hf | hf) | rfl
      · exact ihl hf
      · exact ihr hf
      · exact Regular.connect op hl hr

theorem leaves_of_fragment (hf : f ∈ e.fragments) : ∀ s ∈ f.leaves, s ∈ e.leaves := by
  induction e with
  | terminal symbol => exact absurd hf List.not_mem_nil
  | unary op operand ih => exact ih hf
  -- The leaves of an operand are leaves of the node.
  | binary op left right ihl ihr =>
      rcases mem_fragments_binary.mp hf with (hf | hf) | rfl
      · exact fun s hs => List.mem_append_left _ (ihl hf s hs)
      · exact fun s hs => List.mem_append_right _ (ihr hf s hs)
      · exact fun s hs => hs

theorem vars_of_fragment (hf : f ∈ e.fragments) : ∀ s ∈ f.vars, s ∈ e.vars := by
  intro s hs
  rcases mem_vars.mp hs with ⟨hleaf, hname⟩
  exact mem_vars.mpr ⟨leaves_of_fragment hf s hleaf, hname⟩

theorem height_of_fragment (hf : f ∈ e.fragments) : f.height ≤ e.height := by
  induction e with
  | terminal symbol => exact absurd hf List.not_mem_nil
  | unary op operand ih => exact Nat.le_succ_of_le (ih hf)
  | binary op left right ihl ihr =>
      rcases mem_fragments_binary.mp hf with (hf | hf) | rfl
      · exact Nat.le_succ_of_le (Nat.le_trans (ihl hf) (Nat.le_max_left _ _))
      · exact Nat.le_succ_of_le (Nat.le_trans (ihr hf) (Nat.le_max_right _ _))
      · exact Nat.le_refl _

end Fragments

end Expr

end BoolCalc
