import BoolCalc.Expr.Basic
import BoolCalc.Parse.Event
import BoolCalc.Parse.Error

/-!
# The Parsing Machine

Parsing as a left-to-right walk over symbols with a stack of what is still
open.

At any moment the machine either wants an operand or has just read one. What
has been begun and not finished lies on a stack, innermost first: negations
that wait for their operand, groups that wait for their closing parenthesis,
and operators that have their left side and wait for their right. A symbol is
answered by looking at the stage and the stack alone, never by reading ahead:
the answer is to go on to the next symbol, to accept a tree, or to refuse.

When an operand meets an operator, every operator on top of the stack that
binds at least as tightly is finished first. This is what makes the tighter
operator bind tighter and equal ones group to the left. When an operand meets
anything else, everything down to the nearest open group is finished.

A parse has a goal. Parsing a single term ends with the first complete one.
Parsing an expression ends before an operator that does not bind more tightly
than a given bound, and before anything that cannot continue an expression;
if the expression has to be the whole input, only the end will do.

The number of negations and groups that are open at once is bounded by a
limit. An opening symbol that would exceed it is refused on the spot.

## Main definitions

* `Pending`, `Stage`: What is open, and what the machine is waiting for.
* `Goal`: What is being parsed.
* `respond`: The answer to a symbol.
* `conclude`: The answer to the end of the input.
* `consume`: The whole walk.
-/

namespace BoolCalc

/-- A construct that has been begun and not finished. -/
inductive Pending
  | negation
  | group
  | operator (left : Expr) (op : BinaryOp)
  deriving DecidableEq, Repr

namespace Pending

/-- Whether a construct counts as a level of nesting. -/
def nests : Pending → Bool
  | negation | group => true
  | operator _ _ => false

end Pending

/-- How many levels of nesting are open. -/
def nesting (pending : List Pending) : Nat := pending.countP Pending.nests

/-- What the machine is waiting for, with what is open, innermost first: an
    operand, or whatever may follow an operand. A leaf is kept apart until the
    next symbol is there, because only then is it reported. -/
inductive Stage
  | want (pending : List Pending)
  | leaf (c : Char) (pending : List Pending)
  | complete (e : Expr) (pending : List Pending)
  deriving DecidableEq, Repr

/-- What is being parsed. -/
inductive Goal
  | term
  | expression (bound : Int) (whole : Bool)
  deriving DecidableEq, Repr

/-- The answer to a symbol: go on, accept a tree without using the symbol up,
    or refuse. -/
inductive Move
  | advance (next : Stage)
  | accept (e : Expr)
  | refuse (cause : Cause)
  deriving DecidableEq, Repr

/-- Finish everything down to the nearest open group. What lies below that
    group is returned too; it is absent when no group is open. -/
def reduce (e : Expr) : List Pending → Expr × Option (List Pending)
  | [] => (e, none)
  | .group :: outer => (e, some outer)
  | .negation :: rest => reduce e.negation rest
  | .operator left op :: rest => reduce (.connect op left e) rest

/-- What a finished tree comes to when the symbol after it does not belong to
    it. -/
def Goal.finish (goal : Goal) (next : Option Symbol) (e : Expr) : Except Cause Expr :=
  match goal, next with
  | .expression _ true, some s => .error (.trailing s)
  | _, _ => .ok e

/-- The move that a finished tree comes to. -/
def Move.ofFinish : Except Cause Expr → Move
  | .ok e => .accept e
  | .error cause => .refuse cause

/-- Answer an operator after an operand: finish what binds at least as tightly
    and then wait for the right side, or end before the operator. -/
def weigh (goal : Goal) (op : BinaryOp) (e : Expr) : List Pending → List Event × Move
  | [] =>
    match goal with
    | .term => ([], .accept e)
    | .expression bound _ =>
      ([.operatorWeighed op],
        if op.precedence ≤ bound then .ofFinish (goal.finish (some (.operator op)) e)
        else .advance (.want [.operator e op]))
  | .negation :: rest => weigh goal op e.negation rest
  | .group :: outer => ([.operatorWeighed op], .advance (.want (.operator e op :: .group :: outer)))
  | .operator left before :: rest =>
    if op.precedence ≤ before.precedence then
      let (log, move) := weigh goal op (.connect before left e) rest
      (.operatorWeighed op :: log, move)
    else
      ([.operatorWeighed op], .advance (.want (.operator e op :: .operator left before :: rest)))

/-- Answer the symbol after an operand. -/
def follow (goal : Goal) (e : Expr) (pending : List Pending) : Symbol → List Event × Move
  | .operator op => weigh goal op e pending
  | s =>
    match reduce e pending with
    | (e, none) => ([], .ofFinish (goal.finish (some s) e))
    | (e, some outer) =>
      ([], if s = .closeParen then .advance (.complete e outer)
        else .refuse (.missingClose (some s)))

/-- Open a construct, unless that would nest too deeply. -/
def openConstruct (limit : Nat) (construct : Pending) (pending : List Pending) : Move :=
  if nesting pending < limit then .advance (.want (construct :: pending)) else .refuse .tooDeep

/-- Answer the first symbol of a term. -/
def beginTerm (limit : Nat) (pending : List Pending) : Symbol → Move
  | .negation => openConstruct limit .negation pending
  | .openParen => openConstruct limit .group pending
  | .constant b => .advance (.leaf b.char pending)
  | .identifier c => .advance (.leaf c pending)
  | .operator _ | .closeParen => .refuse .noTerm

/-- The answer to a symbol, with what is reported on the way. -/
def respond (limit : Nat) (goal : Goal) : Stage → Symbol → List Event × Move
  | .want pending, s => ([.termStart (some s)], beginTerm limit pending s)
  | .leaf c pending, s =>
    let (log, move) := follow goal (.symbol c) pending s
    (.leafReached c :: log, move)
  | .complete e pending, s => follow goal e pending s

/-- The answer to the end of the input after an operand. -/
def close (goal : Goal) (e : Expr) (pending : List Pending) : Except Cause Expr :=
  match reduce e pending with
  | (e, none) => goal.finish none e
  | (_, some _) => .error (.missingClose none)

/-- The answer to the end of the input, with what is reported on the way. -/
def conclude (goal : Goal) : Stage → List Event × Except Cause Expr
  | .want _ => ([.termStart none], .error .noTerm)
  | .leaf c pending => ([.leafReached c], close goal (.symbol c) pending)
  | .complete e pending => ([], close goal e pending)

/-- What a walk leaves behind. -/
structure Run where
  /-- What was reported, in order. -/
  log : List Event
  /-- The position after the last character read. -/
  index : Nat
  /-- The last token that was read. -/
  current : Option Token
  /-- The tree, or why there is none. -/
  outcome : Except Cause Expr

/-- The same run with more reported before it. -/
def Run.after (log : List Event) (run : Run) : Run := { run with log := log ++ run.log }

/-- The run that ends with the given token. -/
def Run.atToken (t : Token) (index : Nat) (log : List Event) (outcome : Except Cause Expr) : Run :=
  ⟨log, index, some t, outcome⟩

/-- Read on from a position. `current` is the token read before, which stays
    the last one if the next character stands for nothing. -/
def consume (limit : Nat) (goal : Goal) (current : Option Token) (stage : Stage) :
    List Char → Nat → Run
  | [], index =>
    let (log, outcome) := conclude goal stage
    .atToken ⟨none, index⟩ index (.endReached :: log) outcome
  | c :: rest, index =>
    match Symbol.classify c with
    | .error fault => ⟨[], index + 1, current, .error (.badSymbol fault c)⟩
    | .ok s =>
      let token : Token := ⟨some s, index⟩
      match respond limit goal stage s with
      | (log, .advance next) =>
        (consume limit goal (some token) next rest (index + 1)).after (.tokenRead s :: log)
      | (log, .accept e) => .atToken token (index + 1) (.tokenRead s :: log) (.ok e)
      | (log, .refuse cause) => .atToken token (index + 1) (.tokenRead s :: log) (.error cause)

/-- Begin with a token that has already been read, and read on from there. -/
def resume (limit : Nat) (goal : Goal) (token : Token) (rest : List Char) (index : Nat) : Run :=
  match token.symbol with
  | none =>
    let (log, outcome) := conclude goal (.want [])
    .atToken token index log outcome
  | some s =>
    match respond limit goal (.want []) s with
    | (log, .advance next) => (consume limit goal (some token) next rest index).after log
    | (log, .accept e) => .atToken token index log (.ok e)
    | (log, .refuse cause) => .atToken token index log (.error cause)

end BoolCalc
