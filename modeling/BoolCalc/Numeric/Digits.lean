/-!
# Digits

The digits of a number in any base up to sixteen, and the number they spell.

Letters stand for the digits from ten on, in either case. Digits of other
scripts do not count.

Converting between a decimal text and a number takes time that grows with the
square of the digits, so it is given up on if there are too many of them.

## Main definitions

* `isDigit`, `isHexDigit`: The digits of base ten and of base sixteen.
* `ofDigits`: The number that digits spell in a base.
* `greatestDigits`: The most digits of an integer that is converted.
-/

namespace BoolCalc

/-- Whether a character is a decimal digit. -/
def isDigit (c : Char) : Bool := '0' ≤ c && c ≤ '9'

/-- Whether a character is a digit in base sixteen. -/
def isHexDigit (c : Char) : Bool :=
  isDigit c || ('a' ≤ c && c ≤ 'f') || ('A' ≤ c && c ≤ 'F')

/-- The value of a digit in any base up to sixteen. -/
def digitValue (c : Char) : Nat :=
  if isDigit c then c.toNat - '0'.toNat
  else if 'a' ≤ c then c.toNat - 'a'.toNat + 10
  else c.toNat - 'A'.toNat + 10

/-- The number that digits spell in a base, the most significant first. -/
def ofDigits (base : Nat) (digits : List Char) : Nat :=
  digits.foldl (fun n c => n * base + digitValue c) 0

/-- The most decimal digits of an integer that is converted from a text or to
    one. The sign is not counted. -/
def greatestDigits : Nat := 4300

end BoolCalc
