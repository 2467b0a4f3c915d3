import BoolCalc.Table.Assignment
import BoolCalc.Token.Symbol

/-!
# The Kinds of Characters

How the characters of a source are told apart without reference to how they
are read.

An operand is a character that is an expression on its own: a constant, or a
character that can name a variable. Everything else is an operator or a
parenthesis, or stands for nothing, because it is a digit that is no constant
or because it is not printable. `Reading` lists these kinds with what a
character of each is read as. A fact about reading is a case analysis on it,
which spares every such fact the order in which the tests are made.

## Main definitions

* `isIdentifier`, `isOperand`: The characters that stand for a leaf.
* `Symbol.Reading`: The kinds of character and what they are read as.

## Theorems

* `reading_classify`: Every character is read by its kind.
* `classify_eq_leaf_iff`: The operands are the characters read as leaves.
* `classify_eq_invalid_iff`, `classify_eq_unknown_iff`: The characters that
  stand for nothing.
-/

namespace BoolCalc

/-- Whether a character can name a variable in an expression. -/
def isIdentifier (c : Char) : Bool :=
  Text.isPrintable c && !isReserved c && !Symbol.isInvalidDigit c

/-- Whether a character is an expression on its own. -/
def isOperand (c : Char) : Bool := c = '0' || c = '1' || isIdentifier c

theorem ne_of_isOperand {c : Char} (hc : isOperand c = true) {d : Char}
    (hd : isOperand d = false) : c ≠ d := by
  rintro rfl
  rw [hc] at hd
  exact absurd hd nofun

namespace Symbol

/-- Whether a symbol is a leaf on its own. -/
def isLeaf : Symbol → Bool
  | constant _ | identifier _ => true
  | negation | operator _ | openParen | closeParen => false

theorem classify_operator (op : BinaryOp) : classify op.char = .ok (operator op) := by
  cases op <;> rfl

/-- The kinds of character, with what a character of each kind is read as. -/
inductive Reading : Char → Except SymbolFault Symbol → Prop
  | negation : Reading '!' (.ok negation)
  | operator (op : BinaryOp) : Reading op.char (.ok (operator op))
  | constant (b : Bit) : Reading b.char (.ok (constant b))
  | openParen : Reading '(' (.ok openParen)
  | closeParen : Reading ')' (.ok closeParen)
  | identifier {c : Char} (h : isIdentifier c = true) : Reading c (.ok (identifier c))
  | invalid {c : Char} (h : isInvalidDigit c = true) : Reading c (.error .invalid)
  | unknown {c : Char} (h : Text.isPrintable c = false) : Reading c (.error .unknown)

/-- Every character is read by its kind. -/
theorem reading_classify (c : Char) : Reading c (classify c) := by
  unfold classify
  by_cases hreserved : isReserved c = true
  · -- The tests come in the order of the operators, constants and parentheses.
    simp only [isReserved, Bool.or_eq_true, beq_iff_eq] at hreserved
    rcases hreserved with (((((rfl | rfl) | rfl) | rfl) | rfl) | rfl) | rfl
    · exact Reading.openParen
    · exact Reading.closeParen
    · exact Reading.operator .disj
    · exact Reading.negation
    · exact Reading.operator .conj
    · exact Reading.constant .zero
    · exact Reading.constant .one
  · -- No other character passes one of these tests.
    have hne : ∀ d, isReserved d = true → c ≠ d := by
      rintro d hd rfl
      exact hreserved hd
    rw [if_neg (hne '!' rfl), if_neg (hne '*' rfl), if_neg (hne '+' rfl), if_neg (hne '0' rfl),
      if_neg (hne '1' rfl), if_neg (hne '(' rfl), if_neg (hne ')' rfl)]
    by_cases hdigit : isInvalidDigit c = true
    · rw [if_pos hdigit]
      exact Reading.invalid hdigit
    · rw [if_neg hdigit]
      by_cases hprint : Text.isPrintable c = true
      · rw [if_pos hprint]
        refine Reading.identifier ?_
        simp only [isIdentifier, hprint, hreserved, hdigit, Bool.not_false, Bool.and_self]
      · rw [if_neg hprint]
        exact Reading.unknown (Bool.not_eq_true _ ▸ hprint)

/-- The digits from 2 to 9 are printable, so being invalid and being unknown
    exclude each other. -/
theorem isPrintable_of_isInvalidDigit {c : Char} (h : isInvalidDigit c = true) :
    Text.isPrintable c = true := by
  simp only [isInvalidDigit, Bool.and_eq_true, decide_eq_true_eq] at h
  have hlow : 50 ≤ c.toNat := h.1
  have hhigh : c.toNat ≤ 57 := h.2
  -- They lie between the first two ranges of the table.
  unfold Text.isPrintable Text.nonPrintable
  rw [Text.inRanges, if_neg (by omega), if_neg (by omega), Text.inRanges, if_pos (by omega)]
  rfl

theorem isInvalidDigit_of_isIdentifier {c : Char} (h : isIdentifier c = true) :
    isInvalidDigit c = false := by
  simp only [isIdentifier, Bool.and_eq_true, Bool.not_eq_true'] at h
  exact h.2

theorem isPrintable_of_isIdentifier {c : Char} (h : isIdentifier c = true) :
    Text.isPrintable c = true := by
  simp only [isIdentifier, Bool.and_eq_true] at h
  exact h.1.1

/-- An operand is printable and no invalid digit, like every legal character. -/
theorem legal_of_isOperand {c : Char} (h : isOperand c = true) :
    isInvalidDigit c = false ∧ Text.isPrintable c = true := by
  simp only [isOperand, Bool.or_eq_true, decide_eq_true_eq] at h
  rcases h with (rfl | rfl) | h
  · decide
  · decide
  · exact ⟨isInvalidDigit_of_isIdentifier h, isPrintable_of_isIdentifier h⟩

/-- The operands are the characters that are read as leaves. -/
theorem classify_eq_leaf_iff (c : Char) :
    (∃ s, classify c = .ok s ∧ s.isLeaf = true) ↔ isOperand c = true := by
  have hreading := reading_classify c
  generalize classify c = reading at hreading ⊢
  -- Only constants and identifiers are leaves, and only they are operands.
  cases hreading with
  | constant b =>
      refine iff_of_true ⟨_, rfl, rfl⟩ ?_
      cases b with
      | zero | one => rfl
  | identifier h =>
      refine iff_of_true ⟨_, rfl, rfl⟩ ?_
      rw [isOperand, h, Bool.or_true]
  | negation | openParen | closeParen =>
      refine iff_of_false ?_ (by decide)
      rintro ⟨s, hs, hleaf⟩
      cases hs
      exact absurd hleaf nofun
  | operator op =>
      refine iff_of_false ?_ ?_
      · rintro ⟨s, hs, hleaf⟩
        cases hs
        exact absurd hleaf nofun
      · cases op with
        | conj | disj => decide
  | invalid h =>
      -- An operand is printable and no invalid digit, so it is read as a symbol.
      refine iff_of_false (by rintro ⟨_, hs, _⟩; exact absurd hs nofun) (fun hoperand => ?_)
      rw [(legal_of_isOperand hoperand).1] at h
      exact absurd h nofun
  | unknown h =>
      refine iff_of_false (by rintro ⟨_, hs, _⟩; exact absurd hs nofun) (fun hoperand => ?_)
      rw [(legal_of_isOperand hoperand).2] at h
      exact absurd h nofun

/-- A character that is read as a symbol is printable and no invalid digit. -/
theorem legal_of_classify {c : Char} {s : Symbol} (h : classify c = .ok s) :
    isInvalidDigit c = false ∧ Text.isPrintable c = true := by
  have hreading := reading_classify c
  rw [h] at hreading
  -- What is bad about a character excludes every reading as a symbol.
  cases hreading with
  | negation | openParen | closeParen => decide
  | operator op =>
      cases op with
      | conj | disj => decide
  | constant b =>
      cases b with
      | zero | one => decide
  | identifier hname =>
      exact ⟨isInvalidDigit_of_isIdentifier hname, isPrintable_of_isIdentifier hname⟩

/-- The invalid characters are the digits that are no constants. -/
theorem classify_eq_invalid_iff (c : Char) :
    classify c = .error .invalid ↔ isInvalidDigit c = true := by
  constructor
  · intro h
    have hreading := reading_classify c
    rw [h] at hreading
    cases hreading with
    | invalid hdigit => exact hdigit
  · intro hdigit
    -- A digit that is no constant is tested for before printability is.
    cases h : classify c with
    | ok s =>
        rw [(legal_of_classify h).1] at hdigit
        exact absurd hdigit nofun
    | error fault =>
        have hreading := reading_classify c
        rw [h] at hreading
        cases hreading with
        | invalid _ => rfl
        | unknown hprint =>
            rw [isPrintable_of_isInvalidDigit hdigit] at hprint
            exact absurd hprint nofun

/-- The unknown characters are those that are not printable. -/
theorem classify_eq_unknown_iff (c : Char) :
    classify c = .error .unknown ↔ Text.isPrintable c = false := by
  constructor
  · intro h
    have hreading := reading_classify c
    rw [h] at hreading
    cases hreading with
    | unknown hprint => exact hprint
  · intro hprint
    -- Had it been a digit it would have been printable.
    cases h : classify c with
    | ok s =>
        rw [(legal_of_classify h).2] at hprint
        exact absurd hprint nofun
    | error fault =>
        have hreading := reading_classify c
        rw [h] at hreading
        cases hreading with
        | unknown _ => rfl
        | invalid hdigit =>
            rw [isPrintable_of_isInvalidDigit hdigit] at hprint
            exact absurd hprint nofun

end Symbol

end BoolCalc
