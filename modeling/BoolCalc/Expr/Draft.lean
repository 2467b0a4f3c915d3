import BoolCalc.Expr.Basic
import BoolCalc.Issue

/-!
# Drafts

Descriptions of expressions that have yet to be checked.

A draft names its operators and symbols freely and may leave fields out.
`Draft.validate` turns it into an expression node by node, operands first:
the first node that is not acceptable ends the validation with all of its own
issues, in the order of its fields. `Draft.assume` takes a draft at its word
and builds the expression without any check.

## Main definitions

* `Draft`: A description of an expression.
* `Draft.validate`: The expression described, or the issues of the first bad
  node.
* `Draft.assume`: The expression described, unchecked.
-/

namespace BoolCalc

/-- A field that should hold a text. -/
inductive TextField
  | missing
  | other
  | given (s : String)
  deriving DecidableEq, Repr

/-- A description of an expression; `absent` stands for an operand that was
    left out. -/
inductive Draft
  | absent
  | terminal (symbol : TextField)
  | unary (op : TextField) (operand : Draft)
  | binary (op : TextField) (left right : Draft)
  deriving Repr, Inhabited

namespace Draft

/-- What is wrong with an operator field, given which operators are legal. -/
def operatorIssues (legal : String → Bool) : TextField → List Issue
  | .missing => [⟨["op"], .missing⟩]
  | .other => [⟨["op"], .notInEnumeration⟩]
  | .given s => if legal s then [] else [⟨["op"], .notInEnumeration⟩]

/-- What is wrong with a symbol field: a symbol has exactly one character. -/
def symbolIssues : TextField → List Issue
  | .missing => [⟨["symbol"], .missing⟩]
  | .other => [⟨["symbol"], .notText⟩]
  | .given s => if s.length = 1 then [] else [⟨["symbol"], .invalidValue⟩]

/-- What is wrong with an operand field: it may have been left out. -/
def operandIssues (name : String) : Option Expr → List Issue
  | none => [⟨[name], .missing⟩]
  | some _ => []

/-- The expression a draft describes, or the issues of the first node that is
    not acceptable. An operand that was left out is the issue of its parent,
    so on its own it is `none`. -/
def check : Draft → Except (List Issue) (Option Expr)
  | absent => .ok none
  | terminal symbol =>
    match symbol, symbolIssues symbol with
    | .given s, [] => .ok (some (.terminal s))
    | _, issues => .error issues
  | unary op operand => do
    let operand ← operand.check
    let issues := operatorIssues (· = negationText) op ++ operandIssues "operand" operand
    match op, operand, issues with
    | .given s, some e, [] => .ok (some (.unary s e))
    | _, _, issues => .error issues
  | binary op left right => do
    let left ← left.check
    let right ← right.check
    let issues := operatorIssues (fun s => (BinaryOp.ofText? s).isSome) op ++
      operandIssues "left" left ++ operandIssues "right" right
    match op, left, right, issues with
    | .given s, some l, some r, [] => .ok (some (.binary s l r))
    | _, _, _, issues => .error issues

/-- The expression a draft describes, or the issues of the first node that is
    not acceptable. -/
def validate (d : Draft) : Except (List Issue) Expr :=
  match d.check with
  | .error issues => .error issues
  | .ok none => .error [⟨[], .missing⟩]
  | .ok (some e) => .ok e

/-- The expression a draft describes, with nothing checked but that every
    field is there. -/
def assume : Draft → Option Expr
  | absent => none
  | terminal (.given s) => some (.terminal s)
  | unary (.given op) operand => operand.assume.map (.unary op)
  | binary (.given op) left right =>
    left.assume.bind fun l => right.assume.map fun r => .binary op l r
  | terminal _ | unary _ _ | binary _ _ _ => none

end Draft

end BoolCalc
