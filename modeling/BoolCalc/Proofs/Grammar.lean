import BoolCalc.Expr.Basic
import BoolCalc.Proofs.Characters

/-!
# The Grammar of Expressions

Which lists of characters are expressions, and the tree each one stands for.

The grammar has a level for each strength of binding. A sum is a product, or a
sum, a `+` and a product; a product is a factor, or a product, a `*` and a
factor; a factor is a negated factor, an operand, or a sum in parentheses. That
the left side of an operator is of the operator's own level and its right side
of the next is what makes equal operators group to the left and a conjunction
bind tighter than a disjunction.

A level is also told by a number, its floor. Outside parentheses a sentence of
the level holds no operator that binds less tightly than its floor, so a higher
floor means fewer sentences. Floors and precedences are on one scale, which is
what lets a parser that compares precedences be held against the levels.

## Main definitions

* `Level`: The strengths of binding.
* `Derives`: A list of characters is a sentence of a level, with its tree.

## Theorems

* `derives_lift`: A sentence of a level is one of every looser level.
* `derives_connect`: The two productions for operators as one.
* `height_lt_length`: A tree is lower than its sentence is long.
-/

namespace BoolCalc

/-- How tightly the operators of a sentence bind outside its parentheses. -/
inductive Level
  | sum
  | product
  | factor
  deriving DecidableEq, Repr

/-- The least precedence an operator may have outside the parentheses of a
    sentence. No operator has the precedence 3. -/
def Level.floor : Level → Int
  | .sum => 1
  | .product => 2
  | .factor => 3

theorem sum_floor_le (lvl : Level) : Level.sum.floor ≤ lvl.floor := by
  cases lvl <;> decide

theorem floor_le_factor_floor (lvl : Level) : lvl.floor ≤ Level.factor.floor := by
  cases lvl <;> decide

/-- A list of characters is a sentence of a level and stands for a tree. -/
inductive Derives : Level → List Char → Expr → Prop
  | leaf {c : Char} (hc : isOperand c = true) : Derives .factor [c] (.symbol c)
  | negation {w : List Char} {e : Expr} (h : Derives .factor w e) :
      Derives .factor ('!' :: w) e.negation
  | group {w : List Char} {e : Expr} (h : Derives .sum w e) :
      Derives .factor ('(' :: w ++ [')']) e
  | factor {w : List Char} {e : Expr} (h : Derives .factor w e) : Derives .product w e
  | conj {v w : List Char} {l r : Expr} (hl : Derives .product v l) (hr : Derives .factor w r) :
      Derives .product (v ++ '*' :: w) (.connect .conj l r)
  | product {w : List Char} {e : Expr} (h : Derives .product w e) : Derives .sum w e
  | disj {v w : List Char} {l r : Expr} (hl : Derives .sum v l) (hr : Derives .product w r) :
      Derives .sum (v ++ '+' :: w) (.connect .disj l r)

/-- A sentence of a level is one of every looser level. -/
theorem derives_lift {tight loose : Level} {w : List Char} {e : Expr}
    (hle : loose.floor ≤ tight.floor) (h : Derives tight w e) : Derives loose w e := by
  -- Of the nine pairs of levels, those that would have to loosen are impossible.
  cases tight with
  | sum =>
      cases loose with
      | sum => exact h
      | product | factor => exact absurd hle (by decide)
  | product =>
      cases loose with
      | sum => exact Derives.product h
      | product => exact h
      | factor => exact absurd hle (by decide)
  | factor =>
      cases loose with
      | sum => exact Derives.product (Derives.factor h)
      | product => exact Derives.factor h
      | factor => exact h

namespace BinaryOp

/-- The level of an operator's left side, which is that of the whole. -/
def leftLevel : BinaryOp → Level
  | conj => .product
  | disj => .sum

/-- The level of an operator's right side. -/
def rightLevel : BinaryOp → Level
  | conj => .factor
  | disj => .product

theorem leftLevel_floor (op : BinaryOp) : op.leftLevel.floor = op.precedence := by
  cases op <;> rfl

theorem rightLevel_floor (op : BinaryOp) : op.rightLevel.floor = op.precedence + 1 := by
  cases op <;> rfl

end BinaryOp

/-- Two sides joined by an operator are a sentence of the level of the left
    one, whichever the operator is. -/
theorem derives_connect (op : BinaryOp) {v w : List Char} {l r : Expr}
    (hl : Derives op.leftLevel v l) (hr : Derives op.rightLevel w r) :
    Derives op.leftLevel (v ++ op.char :: w) (.connect op l r) := by
  cases op with
  | conj => exact Derives.conj hl hr
  | disj => exact Derives.disj hl hr

/-- A tree is lower than its sentence is long, as every edge on a path down
    to a leaf is paid for by an operator. -/
theorem height_lt_length {lvl : Level} {w : List Char} {e : Expr} (h : Derives lvl w e) :
    e.height < w.length := by
  -- Taking the higher side of an operator loses the characters of the other,
  -- and the operator itself has one.
  induction h with
  | leaf hc => exact Nat.zero_lt_one
  | negation _ ih =>
      simp only [Expr.negation, Expr.height, List.length_cons]
      omega
  | group _ ih =>
      simp only [List.length_append, List.length_cons]
      omega
  | factor _ ih | product _ ih => exact ih
  | conj _ _ ihl ihr | disj _ _ ihl ihr =>
      simp only [Expr.connect, Expr.height, List.length_append, List.length_cons]
      omega

end BoolCalc
