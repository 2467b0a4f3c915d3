import BoolCalc.Operator
import BoolCalc.Text.Printable

/-!
# Symbols

What a single character of a source stands for.

Every symbol of the language is one character long, so reading a source is a
matter of classifying its characters one by one. The digits from 2 to 9 are
set apart as invalid, since only 0 and 1 are constants; a character that is
not printable is unknown; and any other character that is not an operator, a
parenthesis or a constant is an identifier.

## Main definitions

* `Symbol`: What a character stands for.
* `Symbol.classify`: The symbol of a character, or why it has none.
* `TokenKind`: The kinds of symbol, and the end of the input.

## Theorems

* `char_of_classify`: A symbol is written as the character it was read from.
-/

namespace BoolCalc

/-- What a legal character stands for. -/
inductive Symbol
  | negation
  | operator (op : BinaryOp)
  | constant (b : Bit)
  | identifier (c : Char)
  | openParen
  | closeParen
  deriving DecidableEq, Repr

/-- Why a character stands for nothing. -/
inductive SymbolFault
  | invalid
  | unknown
  deriving DecidableEq, Repr

/-- The kind of a token. -/
inductive TokenKind
  | unaryOperator
  | binaryOperator
  | binaryConstant
  | identifier
  | openParen
  | closeParen
  | endOfInput
  deriving DecidableEq, Repr

/-- The name of a kind of token. -/
def TokenKind.name : TokenKind → String
  | unaryOperator => "unary_operator"
  | binaryOperator => "binary_operator"
  | binaryConstant => "binary_constant"
  | identifier => "identifier"
  | openParen => "open_paren"
  | closeParen => "close_paren"
  | endOfInput => "end_of_input"

namespace Symbol

/-- The character a symbol is written as. -/
def char : Symbol → Char
  | negation => '!'
  | operator op => op.char
  | constant b => b.char
  | identifier c => c
  | openParen => '('
  | closeParen => ')'

/-- The kind of token a symbol makes. -/
def kind : Symbol → TokenKind
  | negation => .unaryOperator
  | operator _ => .binaryOperator
  | constant _ => .binaryConstant
  | identifier _ => .identifier
  | openParen => .openParen
  | closeParen => .closeParen

/-- Whether a character is a digit from 2 to 9. -/
def isInvalidDigit (c : Char) : Bool := '2' ≤ c && c ≤ '9'

/-- The symbol a character stands for. -/
def classify (c : Char) : Except SymbolFault Symbol :=
  if c = '!' then .ok negation
  else if c = '*' then .ok (operator .conj)
  else if c = '+' then .ok (operator .disj)
  else if c = '0' then .ok (constant .zero)
  else if c = '1' then .ok (constant .one)
  else if c = '(' then .ok openParen
  else if c = ')' then .ok closeParen
  else if isInvalidDigit c then .error .invalid
  else if Text.isPrintable c then .ok (identifier c)
  else .error .unknown

/-- A symbol is written as the character it was read from. -/
theorem char_of_classify {c : Char} {s : Symbol} (h : classify c = .ok s) : s.char = c := by
  unfold classify at h
  repeat' split at h
  all_goals cases h
  -- The character of an identifier is its own; every other is the one tested for.
  all_goals simp only [char, BinaryOp.char, Bit.char, *]

end Symbol

end BoolCalc
