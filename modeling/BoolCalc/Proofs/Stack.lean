import BoolCalc.Proofs.Grammar
import BoolCalc.Proofs.Walk

/-!
# The Stack of Open Constructs

What becomes of the open constructs when a symbol comes after an operand.

A machine that has an operand does two things with the stack. Before an
operator it finishes what binds at least as tightly; before anything else it
finishes everything down to the nearest group. Both are finishing constructs
from the top for a while and then looking at what is left, so both are told
here through one relation: `Settles floor` finishes negations and those
operators whose precedence is at least the floor.

The relation is read in two directions. `weigh_of_settles` and
`reduce_of_settles` say that finishing first what would be finished anyway
makes no difference, so an operand that has yet to be put together may be
spoken of as if it were. `weigh_cases` and `reduce_cases` say how far the
machine goes and what it does then; they are all that later proofs have to
know of `weigh` and `reduce`.

`awaited` is the level of the operand that a stack can take. It looks only at
the top, yet it decides what an operator does there: one that binds at least
as tightly as the floor of the awaited level is put on the stack as it is.

## Main definitions

* `Settles`: Finishing constructs down to a floor.
* `Goal.level`: What a goal asks for as a level.
* `awaited`: The level of the operand a stack can take.
* `groups`: How many groups are open.
* `Stage.operand?`: The operand that a stage has, if it has one.

## Theorems

* `weigh_of_settles`, `reduce_of_settles`: Finishing first makes no
  difference.
* `weigh_push`, `weigh_end`: When an operator is put on the stack, and when
  it ends the parse.
* `weigh_cases`, `reduce_cases`: What weighing and reducing come to.
* `respond_operand`, `conclude_operand`: Answers depend on the operand alone.
-/

namespace BoolCalc

/-- From an operand and a stack, finishing constructs on top one after another
    leads to another operand and what is left of the stack. Only negations and
    operators whose precedence is at least `floor` are finished. -/
inductive Settles (floor : Int) : Expr → List Pending → Expr → List Pending → Prop
  | refl (e : Expr) (p : List Pending) : Settles floor e p e p
  | negation {e e' : Expr} {p p' : List Pending} (h : Settles floor e.negation p e' p') :
      Settles floor e (.negation :: p) e' p'
  | operator {e e' left : Expr} {p p' : List Pending} {op : BinaryOp}
      (hop : floor ≤ op.precedence) (h : Settles floor (.connect op left e) p e' p') :
      Settles floor e (.operator left op :: p) e' p'

theorem settles_trans {floor : Int} {e e' e'' : Expr} {p p' p'' : List Pending}
    (h : Settles floor e p e' p') (h' : Settles floor e' p' e'' p'') :
    Settles floor e p e'' p'' := by
  induction h with
  | refl e p => exact h'
  | negation _ ih => exact Settles.negation (ih h')
  | operator hop _ ih => exact Settles.operator hop (ih h')

theorem settles_lower {floor floor' : Int} {e e' : Expr} {p p' : List Pending}
    (hle : floor' ≤ floor) (h : Settles floor e p e' p') : Settles floor' e p e' p' := by
  induction h with
  | refl e p => exact Settles.refl e p
  | negation _ ih => exact Settles.negation ih
  | operator hop _ ih => exact Settles.operator (Int.le_trans hle hop) ih

theorem sum_floor_le_precedence (op : BinaryOp) : Level.sum.floor ≤ op.precedence := by
  cases op <;> decide

theorem precedence_lt_factor_floor (op : BinaryOp) : op.precedence < Level.factor.floor := by
  cases op <;> decide

/-- What a goal asks for: a bound on precedences rules out the levels whose
    sentences may hold an operator within the bound. -/
def Goal.level : Goal → Level
  | .term => .factor
  | .expression bound _ => if bound ≤ 0 then .sum else if bound ≤ 1 then .product else .factor

/-- The level of the operand that a stack can take. -/
def awaited (goal : Goal) : List Pending → Level
  | [] => goal.level
  | .negation :: _ => .factor
  | .group :: _ => .sum
  | .operator _ op :: _ => op.rightLevel

theorem level_floor_le_iff (bound : Int) (whole : Bool) (op : BinaryOp) :
    (Goal.expression bound whole).level.floor ≤ op.precedence ↔ bound < op.precedence := by
  simp only [Goal.level]
  -- A bound below every precedence allows both operators, one between them
  -- allows the conjunction, and one above them allows none.
  by_cases h0 : bound ≤ 0
  · rw [if_pos h0]
    have := sum_floor_le_precedence op
    simp only [Level.floor] at this ⊢
    omega
  · by_cases h1 : bound ≤ 1
    · rw [if_neg h0, if_pos h1]
      simp only [Level.floor]
      omega
    · rw [if_neg h0, if_neg h1]
      have := precedence_lt_factor_floor op
      simp only [Level.floor] at this ⊢
      omega

section Weighing

variable {goal : Goal} {op : BinaryOp}

/-- Finishing first what binds at least as tightly as an operator makes no
    difference to weighing that operator. -/
theorem weigh_of_settles {floor : Int} {e e' : Expr} {p p' : List Pending}
    (hop : op.precedence ≤ floor) (h : Settles floor e p e' p') :
    (weigh goal op e p).2 = (weigh goal op e' p').2 := by
  -- Each step of settling is one that the weighing would make as well.
  induction h with
  | refl e p => rfl
  | negation _ ih =>
      rw [weigh]
      exact ih
  | operator hfloor _ ih =>
      rw [weigh, if_pos (Int.le_trans hop hfloor)]
      exact ih

/-- An operator that the awaited level allows is put on the stack as it is,
    with the operand as its left side. -/
theorem weigh_push (e : Expr) {p : List Pending}
    (h : (awaited goal p).floor ≤ op.precedence) :
    (weigh goal op e p).2 = .advance (.want (.operator e op :: p)) := by
  -- Only the top matters. Where a factor is awaited no operator is allowed.
  cases p with
  | nil =>
      cases goal with
      | term => exact absurd h (Int.not_le.mpr (precedence_lt_factor_floor op))
      | expression bound whole =>
          have hbound := (level_floor_le_iff bound whole op).mp h
          simp only [weigh]
          rw [if_neg (Int.not_le.mpr hbound)]
  | cons top rest =>
      cases top with
      | negation => exact absurd h (Int.not_le.mpr (precedence_lt_factor_floor op))
      | group => rfl
      | operator left before =>
          simp only [awaited, BinaryOp.rightLevel_floor] at h
          rw [weigh, if_neg (by omega)]

/-- An operator that the goal does not allow ends the parse before it, once
    everything is finished. -/
theorem weigh_end (e : Expr) (h : op.precedence < goal.level.floor) :
    (weigh goal op e []).2 = .ofFinish (goal.finish (some (.operator op)) e) := by
  cases goal with
  | term => rfl
  | expression bound whole =>
      have hbound := mt (level_floor_le_iff bound whole op).mpr (Int.not_le.mpr h)
      simp only [weigh]
      rw [if_pos (Int.not_lt.mp hbound)]

/-- Weighing an operator finishes what binds at least as tightly. Then the
    operator is put on the stack, or it is beyond the goal and the parse ends
    before it. -/
theorem weigh_cases (goal : Goal) (op : BinaryOp) (e : Expr) (p : List Pending) :
    ∃ e' p', Settles op.precedence e p e' p' ∧
      ((awaited goal p').floor ≤ op.precedence ∧
          (weigh goal op e p).2 = .advance (.want (.operator e' op :: p')) ∨
        p' = [] ∧ op.precedence < goal.level.floor ∧
          (weigh goal op e p).2 = .ofFinish (goal.finish (some (.operator op)) e')) := by
  induction p generalizing e with
  | nil =>
      refine ⟨e, [], Settles.refl e [], ?_⟩
      by_cases hle : goal.level.floor ≤ op.precedence
      · exact Or.inl ⟨hle, weigh_push e hle⟩
      · exact Or.inr ⟨rfl, Int.not_le.mp hle, weigh_end e (Int.not_le.mp hle)⟩
  | cons top rest ih =>
      cases top with
      | negation =>
          rcases ih e.negation with ⟨e', p', hs, hcase⟩
          refine ⟨e', p', Settles.negation hs, ?_⟩
          rw [weigh]
          exact hcase
      | group =>
          -- Inside a group every operator is allowed.
          exact ⟨e, .group :: rest, Settles.refl e _,
            Or.inl ⟨sum_floor_le_precedence op, rfl⟩⟩
      | operator left before =>
          by_cases hle : op.precedence ≤ before.precedence
          · rcases ih (.connect before left e) with ⟨e', p', hs, hcase⟩
            refine ⟨e', p', Settles.operator hle hs, ?_⟩
            rw [weigh, if_pos hle]
            exact hcase
          · -- It binds more tightly than the one before, which is what that awaits.
            have hfloor : (awaited goal (.operator left before :: rest)).floor
                ≤ op.precedence := by
              simp only [awaited, BinaryOp.rightLevel_floor]
              omega
            exact ⟨e, _, Settles.refl e _, Or.inl ⟨hfloor, weigh_push e hfloor⟩⟩

end Weighing

theorem reduce_of_settles {floor : Int} {e e' : Expr} {p p' : List Pending}
    (h : Settles floor e p e' p') : reduce e p = reduce e' p' := by
  -- Reducing settles as far as it goes, without a bound.
  induction h with
  | refl e p => rfl
  | negation _ ih =>
      rw [reduce]
      exact ih
  | operator _ _ ih =>
      rw [reduce]
      exact ih

/-- Reducing finishes everything, or everything down to the nearest group. -/
theorem reduce_cases (e : Expr) (p : List Pending) :
    ∃ e', Settles Level.sum.floor e p e' [] ∧ reduce e p = (e', none) ∨
      ∃ outer, Settles Level.sum.floor e p e' (.group :: outer) ∧
        reduce e p = (e', some outer) := by
  -- Each construct above the group is finished, whatever its precedence.
  induction p generalizing e with
  | nil => exact ⟨e, Or.inl ⟨Settles.refl e [], rfl⟩⟩
  | cons top rest ih =>
      cases top with
      | negation =>
          rcases ih e.negation with ⟨e', ⟨hs, hr⟩ | ⟨outer, hs, hr⟩⟩
          · exact ⟨e', Or.inl ⟨Settles.negation hs, hr⟩⟩
          · exact ⟨e', Or.inr ⟨outer, Settles.negation hs, hr⟩⟩
      | group => exact ⟨e, Or.inr ⟨rest, Settles.refl e _, rfl⟩⟩
      | operator left op =>
          have hop := sum_floor_le_precedence op
          rcases ih (.connect op left e) with ⟨e', ⟨hs, hr⟩ | ⟨outer, hs, hr⟩⟩
          · exact ⟨e', Or.inl ⟨Settles.operator hop hs, hr⟩⟩
          · exact ⟨e', Or.inr ⟨outer, Settles.operator hop hs, hr⟩⟩

/-- How many groups are open. -/
def groups (pending : List Pending) : Nat := pending.count .group

theorem groups_nil : groups [] = 0 := rfl

theorem groups_group (p : List Pending) : groups (.group :: p) = groups p + 1 :=
  List.count_cons_self

theorem groups_negation (p : List Pending) : groups (.negation :: p) = groups p :=
  List.count_cons_of_ne (by exact nofun)

theorem groups_operator (left : Expr) (op : BinaryOp) (p : List Pending) :
    groups (.operator left op :: p) = groups p :=
  List.count_cons_of_ne (by exact nofun)

theorem groups_of_settles {floor : Int} {e e' : Expr} {p p' : List Pending}
    (h : Settles floor e p e' p') : groups p = groups p' := by
  induction h with
  | refl e p => rfl
  | negation _ ih => rw [groups_negation, ih]
  | operator _ _ ih => rw [groups_operator, ih]

theorem nesting_nil : nesting [] = 0 := rfl

theorem nesting_cons_le (top : Pending) (p : List Pending) :
    nesting (top :: p) ≤ nesting p + 1 := by
  rw [nesting, List.countP_cons]
  by_cases h : top.nests = true
  · rw [if_pos h]
    exact Nat.le_refl _
  · rw [if_neg h]
    exact Nat.le_succ _

theorem nesting_le_cons (top : Pending) (p : List Pending) : nesting p ≤ nesting (top :: p) := by
  simp only [nesting, List.countP_cons]
  omega

theorem nesting_operator (left : Expr) (op : BinaryOp) (p : List Pending) :
    nesting (.operator left op :: p) = nesting p := by
  simp only [nesting, List.countP_cons, Pending.nests, Bool.false_eq_true, if_false, Nat.add_zero]

theorem nesting_of_settles {floor : Int} {e e' : Expr} {p p' : List Pending}
    (h : Settles floor e p e' p') : nesting p' ≤ nesting p := by
  induction h with
  | refl e p => exact Nat.le_refl _
  | negation _ ih | operator _ _ ih => exact Nat.le_trans ih (nesting_le_cons _ _)

/-- The operand that a stage has and what is open around it. -/
def Stage.operand? : Stage → Option (Expr × List Pending)
  | .want _ => none
  | .leaf c pending => some (.symbol c, pending)
  | .complete e pending => some (e, pending)

theorem operand_cases {σ : Stage} {e : Expr} {p : List Pending}
    (h : σ.operand? = some (e, p)) : (∃ c, σ = .leaf c p ∧ e = .symbol c) ∨ σ = .complete e p := by
  cases σ with
  | want pending => exact absurd h nofun
  | leaf c pending =>
      cases h
      exact Or.inl ⟨c, rfl, rfl⟩
  | complete e' pending =>
      cases h
      exact Or.inr rfl

theorem pending_of_operand {σ : Stage} {e : Expr} {p : List Pending}
    (h : σ.operand? = some (e, p)) : σ.pending = p := by
  rcases operand_cases h with ⟨c, rfl, _⟩ | rfl
  · rfl
  · rfl

/-- The answer to a symbol after an operand depends on the operand, not on
    whether it is a leaf that has yet to be reported. -/
theorem respond_operand (limit : Nat) (goal : Goal) {σ : Stage} {e : Expr} {p : List Pending}
    (h : σ.operand? = some (e, p)) (s : Symbol) :
    (respond limit goal σ s).2 = (follow goal e p s).2 := by
  rcases operand_cases h with ⟨c, rfl, rfl⟩ | rfl
  · rfl
  · rfl

theorem conclude_operand (goal : Goal) {σ : Stage} {e : Expr} {p : List Pending}
    (h : σ.operand? = some (e, p)) : (conclude goal σ).2 = close goal e p := by
  rcases operand_cases h with ⟨c, rfl, rfl⟩ | rfl
  · rfl
  · rfl

end BoolCalc
