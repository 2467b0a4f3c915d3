/-!
# Bits

The two truth values of the algebra, and what it takes for another type to
stand in for them.

A formula is evaluated over bits almost everywhere. The exception is a
context that has not been checked: its values can be anything, and only two
of them, the texts `0` and `1`, mean a bit. `TwoValued` names what an
evaluator needs of such a type: how a bit is written in it, and which values
count as one and as zero. A value may count as neither, so the two tests are
separate, and an operator has to say which of them it asks.

## Main definitions

* `Bit`: Zero or one.
* `Bit.ofText?`: The bit a one-character text denotes.
* `TwoValued`: A type whose values may count as a bit.
-/

namespace BoolCalc

/-- A truth value. -/
inductive Bit
  | zero
  | one
  deriving DecidableEq, Repr, Inhabited

namespace Bit

/-- The character a bit is written as. -/
def char : Bit → Char
  | zero => '0'
  | one => '1'

/-- The one-character text a bit is written as. -/
def text : Bit → String
  | zero => "0"
  | one => "1"

/-- The bit a text denotes, if it is exactly `0` or exactly `1`. -/
def ofText? (s : String) : Option Bit :=
  if s = "0" then some zero else if s = "1" then some one else none

/-- Truth as a bit. -/
def ofBool : Bool → Bit
  | false => zero
  | true => one

/-- A row of bits written without a gap. -/
def rowText (bits : List Bit) : String :=
  String.ofList (bits.map char)

@[simp] theorem ofText?_text (b : Bit) : ofText? b.text = some b := by
  cases b <;> decide

end Bit

/-- A type whose values may count as bits: every bit is written as some value,
    and each value is one, or zero, or neither. -/
class TwoValued (α : Type) where
  /-- The value a bit is written as. -/
  ofBit : Bit → α
  /-- Whether the value counts as one. -/
  isOne : α → Bool
  /-- Whether the value counts as zero. -/
  isZero : α → Bool

instance : TwoValued Bit where
  ofBit b := b
  isOne b := b = .one
  isZero b := b = .zero

end BoolCalc
