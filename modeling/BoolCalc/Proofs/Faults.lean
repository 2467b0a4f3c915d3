import BoolCalc.Proofs.Limits
import BoolCalc.Proofs.Regular

/-!
# The Faults of a Tree

Every outcome of an evaluation, also of a tree that no check has seen.

A tree that was put together by hand can be wrong in several places at once. It
can hold symbols that are bound to nothing, and operators that its nodes may not
hold. `Expr.faults` lists all that is wrong with it, and the order of the list is
the whole of what evaluation order means here: a unary node is listed before its
operand, and a binary node after both of its operands. The list is made by a
plain recursion that never breaks off, so both operands of a node are in it
whatever the value of either is.

`Expr.truth` is what a formula means in ordinary Boolean logic, over the truth
values themselves and without the evaluator's operations on bits. Evaluation
reports the first fault of the list and comes to the truth value if the list is
empty, which is `eval_eq_firstFault`. What was validated has legal operators
only, so its faults are unbound symbols.

## Main definitions

* `OperatorNode.allows`: The operators that a node of a shape may hold.
* `Expr.operators`: The operators of a tree.
* `Expr.faults`: What is wrong with a tree, in the order of evaluation.
* `Expr.truth`: The truth value of a tree.
* `firstFault`: The first of some faults, or a value.

## Theorems

* `eval_eq_firstFault`: Every outcome of an evaluation.
* `faults_eq_nil_iff`: When nothing is wrong with a tree.
* `fault_cases`: What can be wrong with a tree.
* `allows_of_check`: The operators of a tree that passes validation.
* `evaluate_eq_firstFault`: The same for contexts and limits.
* `evaluate_reports_first_fault`: All of this in one statement.
-/

namespace BoolCalc

/-- Whether a node of a shape may hold an operator. -/
def OperatorNode.allows : OperatorNode → String → Bool
  | unary, op => op = "!"
  | binary, op => op = "*" || op = "+"

/-- The first of some faults, or a value if there is none. -/
def firstFault (b : Bool) : List EvalError → Except EvalError Bit
  | [] => .ok (.ofBool b)
  | fault :: _ => .error fault

namespace Expr

/-- Whether a symbol is a constant, which it is whatever is bound to it. -/
def isConstant (symbol : String) : Bool := symbol = "0" || symbol = "1"

/-- The operators of a tree, with the shapes of the nodes that hold them. -/
def operators : Expr → List (OperatorNode × String)
  | terminal _ => []
  | unary op operand => (.unary, op) :: operand.operators
  | binary op left right => left.operators ++ right.operators ++ [(.binary, op)]

/-- The fault of a node that holds an operator it may not hold. -/
def operatorFaults (node : OperatorNode) (op : String) : List EvalError :=
  if node.allows op then [] else [.invalidOperator node op]

/-- All that is wrong with a tree under bindings. A unary node comes before its
    operand, and a binary node after its left and its right operand. -/
def faults (lookup : String → Option Bit) : Expr → List EvalError
  | terminal symbol =>
    if isConstant symbol || (lookup symbol).isSome then [] else [.undefinedVariable symbol]
  | unary op operand => operatorFaults .unary op ++ operand.faults lookup
  | binary op left right =>
    left.faults lookup ++ right.faults lookup ++ operatorFaults .binary op

/-- The truth value of a tree whose symbols have these truth values, unless they
    are constants. -/
def truth (σ : String → Bool) : Expr → Bool
  | terminal symbol => if symbol = "0" then false else if symbol = "1" then true else σ symbol
  | unary _ operand => !operand.truth σ
  | binary op left right =>
    if op = "+" then left.truth σ || right.truth σ else left.truth σ && right.truth σ

section Outcome

/-- The truth values that bindings give to symbols. -/
def boundTrue (lookup : String → Option Bit) (symbol : String) : Bool :=
  lookup symbol = some .one

theorem evalSymbol_eq_firstFault (lookup : String → Option Bit) (symbol : String) :
    evalSymbol lookup symbol =
      firstFault ((terminal symbol).truth (boundTrue lookup))
        ((terminal symbol).faults lookup) := by
  by_cases hzero : symbol = "0"
  · -- The constants are values of their own, whatever the lookup says.
    subst hzero
    rfl
  · by_cases hone : symbol = "1"
    · subst hone
      rfl
    · -- A symbol that is no constant is looked up.
      have hname : Bit.ofText? symbol = none := by
        rw [Bit.ofText?, if_neg hzero, if_neg hone]
      have hconstant : isConstant symbol = false := by
        rw [isConstant, decide_eq_false hzero, decide_eq_false hone]
        rfl
      rw [evalSymbol, hname, truth, if_neg hzero, if_neg hone, faults, hconstant, boundTrue]
      cases lookup symbol with
      | none => rfl
      | some b =>
          cases b with
          | zero | one => rfl

/-- What a node does with its operands when they have values. -/
theorem applyBinary_eq_firstFault (op : String) (x y : Bool) :
    applyBinary op (Bit.ofBool x) (Bit.ofBool y) =
      firstFault (if op = "+" then x || y else x && y) (operatorFaults .binary op) := by
  -- Each operator is tried by its text, and what is neither of them is illegal.
  by_cases hconj : op = "*"
  · subst hconj
    cases x <;> cases y <;> rfl
  · by_cases hdisj : op = "+"
    · subst hdisj
      cases x <;> cases y <;> rfl
    · have hnone : BinaryOp.ofText? op = none := by
        rw [BinaryOp.ofText?, if_neg hconj, if_neg hdisj]
      have hallows : OperatorNode.binary.allows op = false := by
        rw [OperatorNode.allows, decide_eq_false hconj, decide_eq_false hdisj]
        rfl
      rw [applyBinary, hnone, operatorFaults, hallows]
      rfl

/-- Every outcome of an evaluation: the first fault of the tree, or its truth
    value if nothing is wrong with it. -/
theorem eval_eq_firstFault (lookup : String → Option Bit) (e : Expr) :
    e.eval lookup = firstFault (e.truth (boundTrue lookup)) (e.faults lookup) := by
  induction e with
  | terminal symbol => exact evalSymbol_eq_firstFault lookup symbol
  | unary op operand ih =>
      rw [eval, truth, faults, operatorFaults]
      by_cases hop : op = "!"
      · subst hop
        rw [if_pos (show "!" = negationText from rfl), ih,
          if_pos (show OperatorNode.unary.allows "!" = true from rfl), List.nil_append]
        cases operand.faults lookup with
        | nil => cases operand.truth (boundTrue lookup) <;> rfl
        | cons fault rest => rfl
      · -- The operand is not looked at.
        have hallows : ¬OperatorNode.unary.allows op = true := by
          rw [OperatorNode.allows, decide_eq_true_eq]
          exact hop
        have hneg : ¬op = negationText := hop
        rw [if_neg hneg, if_neg hallows]
        rfl
  | binary op left right ihl ihr =>
      rw [eval, truth, faults, ihl]
      cases left.faults lookup with
      | cons fault rest => rfl
      | nil =>
          -- The right operand is evaluated whatever the value of the left one is.
          rw [ihr]
          cases right.faults lookup with
          | cons fault rest => rfl
          | nil => exact applyBinary_eq_firstFault op _ _

/-- Nothing is wrong with a tree exactly if all of its symbols are constants or
    bound and all of its operators are legal. -/
theorem faults_eq_nil_iff (lookup : String → Option Bit) (e : Expr) :
    e.faults lookup = [] ↔
      (∀ s ∈ e.leaves, isConstant s = true ∨ ∃ b, lookup s = some b) ∧
        ∀ o ∈ e.operators, o.1.allows o.2 = true := by
  -- A node adds a fault of its own exactly if its operator is illegal.
  have hoperator : ∀ node op, operatorFaults node op = [] ↔ node.allows op = true := by
    intro node op
    rw [operatorFaults]
    cases node.allows op with
    | true => exact iff_of_true rfl rfl
    | false => exact iff_of_false nofun nofun
  induction e with
  | terminal symbol =>
      simp only [faults, leaves, operators, List.mem_singleton, forall_eq, List.not_mem_nil,
        false_imp_iff, implies_true, and_true, ite_eq_left_iff, reduceCtorEq, imp_false,
        not_not, Bool.or_eq_true, Option.isSome_iff_exists]
  | unary op operand ih =>
      simp only [faults, leaves, operators, List.append_eq_nil_iff, ih, hoperator,
        List.forall_mem_cons]
      -- Both sides name the same three facts, in another order.
      exact and_left_comm
  | binary op left right ihl ihr =>
      simp only [faults, leaves, operators, List.append_eq_nil_iff, ihl, ihr, hoperator,
        List.forall_mem_append, List.forall_mem_singleton]
      tauto

theorem firstFault_eq_ok_iff {b : Bool} {faults : List EvalError} :
    (∃ v, firstFault b faults = .ok v) ↔ faults = [] := by
  cases faults with
  | nil => exact iff_of_true ⟨_, rfl⟩ rfl
  | cons fault rest => exact iff_of_false (fun ⟨_, h⟩ => absurd h nofun) (List.cons_ne_nil _ _)

/-- What can be wrong with a tree is a symbol that is not bound, or an operator. -/
theorem fault_cases {lookup : String → Option Bit} {e : Expr} {err : EvalError}
    (h : err ∈ e.faults lookup) :
    (∃ s, err = .undefinedVariable s) ∨ ∃ node op, err = .invalidOperator node op := by
  -- The faults of a node's own operator are one at most, which names it.
  have hown : ∀ node op, err ∈ operatorFaults node op → err = .invalidOperator node op := by
    intro node op hmem
    rw [operatorFaults] at hmem
    split at hmem
    · exact absurd hmem List.not_mem_nil
    · exact List.mem_singleton.mp hmem
  induction e with
  | terminal symbol =>
      -- A symbol has a fault only if it is unbound.
      rw [faults] at h
      split at h
      · exact absurd h List.not_mem_nil
      · exact .inl ⟨symbol, List.mem_singleton.mp h⟩
  | unary op operand ih =>
      rcases List.mem_append.mp h with hop | hoperand
      · exact .inr ⟨.unary, op, hown _ _ hop⟩
      · exact ih hoperand
  | binary op left right ihl ihr =>
      -- The operator's own fault stands behind those of the operands.
      rcases List.mem_append.mp h with hsides | hop
      · exact (List.mem_append.mp hsides).elim ihl ihr
      · exact .inr ⟨.binary, op, hown _ _ hop⟩

end Outcome

end Expr

/-- What a tree that passes validation holds: only operators that are legal. -/
theorem allows_of_check {d : Draft} {e : Expr} (h : d.check = .ok (some e)) :
    ∀ o ∈ e.operators, o.1.allows o.2 = true := by
  induction d generalizing e with
  | absent => exact absurd h nofun
  -- Validation leaves a symbol as it is, and a symbol has no operator.
  | terminal field =>
      rcases Draft.check_terminal_inv h with ⟨s, rfl⟩
      exact fun o ho => absurd ho List.not_mem_nil
  | unary op d ih =>
      -- The operator was the negation, or validation would have failed.
      rcases Draft.check_unary_inv h with ⟨operand, hd, rfl⟩
      exact List.forall_mem_cons.mpr ⟨rfl, ih hd⟩
  | binary op dl dr ihl ihr =>
      rcases Draft.check_binary_inv h with ⟨binop, l, r, hl, hr, rfl⟩
      refine List.forall_mem_append.mpr
        ⟨List.forall_mem_append.mpr ⟨ihl hl, ihr hr⟩, List.forall_mem_singleton.mpr ?_⟩
      -- Both operators that validation lets through are legal.
      cases binop with
      | conj | disj => rfl

section Contexts

variable {limit : Nat} {e : Expr} {context : Context}

/-- An evaluation without a limit is never too deep. -/
theorem Expr.eval_ne_tooDeep (lookup : String → Option Bit) (e : Expr) :
    e.eval lookup ≠ .error .tooDeep := by
  rw [eval_eq_firstFault]
  cases hlist : e.faults lookup with
  | nil => exact nofun
  -- The first fault would be a depth, and no fault of a tree is one.
  | cons fault rest =>
      intro h
      cases h
      rcases fault_cases (hlist ▸ List.mem_cons_self) with ⟨s, hs⟩ | ⟨node, op, hop⟩
      · cases hs
      · cases hop

/-- An evaluation is never too deep for a tree that is no higher than the limit. -/
theorem evaluate_ne_tooDeep (h : e.height ≤ limit) (context : Context) :
    evaluate limit e context ≠ .error .tooDeep := by
  rw [evaluate]
  -- The context is read first, and what is wrong with it is no depth.
  cases hbound : context.bindings with
  | error err =>
      intro hdeep
      cases hdeep
      exact context.bindings_ne_tooDeep hbound
  | ok bound =>
      simp only [Expr.evalWithin_eq_eval _ h]
      exact Expr.eval_ne_tooDeep _ e

/-- Every outcome of an evaluation that is not given up on. -/
theorem evaluate_eq_firstFault {bound : Bindings} (hcontext : context.bindings = .ok bound)
    (hdeep : evaluate limit e context ≠ .error .tooDeep) :
    evaluate limit e context =
      firstFault (e.truth (Expr.boundTrue bound.get?)) (e.faults bound.get?) := by
  rw [evaluate_eq_eval hdeep, hcontext]
  exact Expr.eval_eq_firstFault _ e

/-- An operator that is reported is one of the tree, and illegal. -/
theorem mem_operators_of_fault {lookup : String → Option Bit} {node : OperatorNode} {op : String}
    (h : .invalidOperator node op ∈ e.faults lookup) :
    (node, op) ∈ e.operators ∧ node.allows op = false := by
  -- A node reports its operator only if that is illegal.
  have hown : ∀ node' op', .invalidOperator node op ∈ Expr.operatorFaults node' op' →
      (node, op) = (node', op') ∧ node.allows op = false := by
    intro node' op' hmem
    rw [Expr.operatorFaults] at hmem
    cases hallows : node'.allows op' with
    | true =>
        rw [if_pos hallows] at hmem
        exact absurd hmem List.not_mem_nil
    | false =>
        rw [hallows, if_neg Bool.false_ne_true, List.mem_singleton] at hmem
        cases hmem
        exact ⟨rfl, hallows⟩
  induction e with
  | terminal symbol =>
      rw [Expr.faults] at h
      split at h
      · exact absurd h List.not_mem_nil
      · exact absurd (List.mem_singleton.mp h) nofun
  | unary op' operand ih =>
      rw [Expr.operators, List.mem_cons]
      rcases List.mem_append.mp h with hop | hoperand
      · exact (hown _ _ hop).imp_left .inl
      · exact (ih hoperand).imp_left .inr
  | binary op' left right ihl ihr =>
      rw [Expr.operators, List.mem_append, List.mem_append, List.mem_singleton]
      rcases List.mem_append.mp h with hsides | hop
      · rcases List.mem_append.mp hsides with hleft | hright
        · exact (ihl hleft).imp_left fun hmem => .inl (.inl hmem)
        · exact (ihr hright).imp_left fun hmem => .inl (.inr hmem)
      · exact (hown _ _ hop).imp_left .inr

/-- An operator that an evaluation reports is one of the tree, and illegal. -/
theorem mem_operators_of_evaluate {node : OperatorNode} {op : String}
    (h : evaluate limit e context = .error (.invalidOperator node op)) :
    (node, op) ∈ e.operators ∧ node.allows op = false := by
  -- What is wrong with a context is no operator, so the context has bindings.
  cases hcontext : context.bindings with
  | error err =>
      rw [evaluate, hcontext] at h
      cases h
      exact absurd (Context.stemsFromContext_of_bindings hcontext) Bool.false_ne_true
  | ok bound =>
      have hdeep : evaluate limit e context ≠ .error .tooDeep := by
        intro hdeep
        rw [hdeep] at h
        cases h
      rw [evaluate_eq_firstFault hcontext hdeep] at h
      -- The operator that is reported is the first fault of the tree.
      cases hfaults : e.faults bound.get? with
      | nil =>
          rw [hfaults] at h
          cases h
      | cons fault rest =>
          rw [hfaults] at h
          cases h
          exact mem_operators_of_fault (hfaults ▸ List.mem_cons_self)

end Contexts

/-- Every outcome of an evaluation, for all trees and for all contexts that come
    to bindings, as long as it is not given up on. It is the first fault of the
    tree, or its truth value if nothing is wrong with it, and nothing is wrong
    with it exactly if every symbol is a constant or bound and every operator is
    legal. An evaluation is not given up on if the tree is no higher than the
    limit, and it reports no operator if the tree was validated. -/
theorem evaluate_reports_first_fault :
    (∀ (limit : Nat) (e : Expr) (context : Context) (bound : Bindings),
      context.bindings = .ok bound → evaluate limit e context ≠ .error .tooDeep →
        evaluate limit e context =
          firstFault (e.truth (Expr.boundTrue bound.get?)) (e.faults bound.get?) ∧
        ((∃ b, evaluate limit e context = .ok b) ↔
          (∀ s ∈ e.leaves, Expr.isConstant s = true ∨ ∃ b, bound.get? s = some b) ∧
            ∀ o ∈ e.operators, o.1.allows o.2 = true)) ∧
      (∀ (limit : Nat) (e : Expr) (context : Context), e.height ≤ limit →
        evaluate limit e context ≠ .error .tooDeep) ∧
      ∀ (d : Draft) (e : Expr), d.validate = .ok e →
        ∀ (limit : Nat) (context : Context) (node : OperatorNode) (op : String),
          evaluate limit e context ≠ .error (.invalidOperator node op) := by
  refine ⟨fun limit e context bound hcontext hdeep => ?_,
    fun limit e context hheight => evaluate_ne_tooDeep hheight context, ?_⟩
  · have houtcome := evaluate_eq_firstFault hcontext hdeep
    refine ⟨houtcome, ?_⟩
    rw [houtcome, Expr.firstFault_eq_ok_iff, Expr.faults_eq_nil_iff]
  · intro d e hvalid limit context node op h
    -- The operator would be one of the tree, where validation leaves no illegal one.
    rcases mem_operators_of_evaluate h with ⟨hmem, hillegal⟩
    have hlegal := allows_of_check (Draft.check_of_validate hvalid) _ hmem
    exact Bool.false_ne_true (hillegal.symm.trans hlegal)

/-- Of four faults in two nodes the left operand's own operator comes first, and
    without it an unbound symbol that the constant zero beside it would make
    irrelevant. What is left over once these are mended is the operator of the
    root. A context that binds a constant has no effect. -/
theorem evaluate_several_faults :
    ∃ (context : Context) (bound : Bindings) (d : Draft) (e : Expr),
      context = .ofList [(.text "a", .scalar (.truth true)), (.text "0", .scalar (.integer 1))] ∧
      context.bindings = .ok bound ∧
      evaluate 2 (.binary "?" (.unary "~" (.terminal "b")) (.terminal "c")) context =
        .error (.invalidOperator .unary "~") ∧
      evaluate 2 (.binary "?" (.binary "*" (.terminal "0") (.terminal "b")) (.terminal "c"))
        context = .error (.undefinedVariable "b") ∧
      evaluate 2 (.binary "?" (.terminal "0") (.terminal "a")) context =
        .error (.invalidOperator .binary "?") ∧
      d = .unary (.given "!") (.terminal (.given "0")) ∧ d.validate = .ok e ∧
      evaluate 1 e context = .ok .one ∧ evaluate 0 e context = .error .tooDeep ∧
      evaluate 0 e context ≠ .error (.invalidOperator .unary "!") := by
  rcases evaluate_reports_first_fault with ⟨houtcome, hdeep, hvalidated⟩
  have hbound : Context.bindings
      (.ofList [(.text "a", .scalar (.truth true)), (.text "0", .scalar (.integer 1))]) =
        .ok (.ofList [("a", .one), ("0", .one)]) := rfl
  have hvalid : (Draft.unary (.given "!") (.terminal (.given "0"))).validate =
      .ok (.unary "!" (.terminal "0")) := rfl
  refine ⟨_, _, _, _, rfl, hbound, ?_, ?_, ?_, rfl, hvalid, ?_, rfl,
    hvalidated _ _ hvalid _ _ _ _⟩
  · exact (houtcome _ _ _ _ hbound (hdeep _ _ _ (by decide))).1
  · exact (houtcome _ _ _ _ hbound (hdeep _ _ _ (by decide))).1
  · exact (houtcome _ _ _ _ hbound (hdeep _ _ _ (by decide))).1
  · exact (houtcome _ _ _ _ hbound (hdeep _ _ _ (by decide))).1

end BoolCalc
