/-!
# Binary Floating-Point Numbers

The double-precision numbers, kept as what they denote: a sign, a mantissa
and a power of two. Nothing here goes through machine arithmetic, so every
question about a number (is it an integer, which decimals round to it) is a
question about natural numbers.

A decimal denotes the nearest double, and of two equally near ones the one
with the even mantissa. `ofRatio` finds the power of two that leaves a
quotient of 53 binary digits, rounds that quotient, and mends the one case in
which rounding carries into a new digit.

## Main definitions

* `Binary64`: A double-precision number.
* `Binary64.ofDecimal`: The double a decimal denotes.
* `Binary64.toInt?`: The integer a double is, if it is one.
-/

namespace BoolCalc

/-- A double-precision number. A finite one is its mantissa times two to its
    exponent; the mantissa has 53 binary digits unless the exponent is the
    least possible. -/
inductive Binary64
  | finite (negative : Bool) (mantissa : Nat) (exponent : Int)
  | infinite (negative : Bool)
  | nan
  deriving DecidableEq, Repr

namespace Binary64

/-- The exponent of the numbers nearest to zero. -/
def leastExponent : Int := -1074

/-- The exponent of the largest finite numbers. -/
def greatestExponent : Int := 971

/-- The quotient rounded to an integer, a half going to the even neighbour. -/
def roundHalfEven (num den : Nat) : Nat :=
  let q := num / den
  let r := num % den
  if 2 * r < den || (2 * r == den && q % 2 == 0) then q else q + 1

/-- Whether two to the power `e` is at most the quotient. -/
def powerOfTwoLe (e : Int) (num den : Nat) : Bool :=
  if e < 0 then den ≤ num * Nat.pow 2 (-e).toNat else den * Nat.pow 2 e.toNat ≤ num

/-- The double nearest to a quotient of natural numbers. -/
def ofRatio (negative : Bool) (num den : Nat) : Binary64 :=
  if num = 0 then .finite negative 0 leastExponent
  else
    let estimate : Int := (num.log2 : Int) - (den.log2 : Int)
    let scale := if powerOfTwoLe estimate num den then estimate else estimate - 1
    let exponent := max leastExponent (scale - 52)
    let mantissa :=
      if exponent < 0 then roundHalfEven (num * Nat.pow 2 (-exponent).toNat) den
      else roundHalfEven num (den * Nat.pow 2 exponent.toNat)
    let carried := mantissa == Nat.pow 2 53
    let exponent := if carried then exponent + 1 else exponent
    if greatestExponent < exponent then .infinite negative
    else .finite negative (if carried then Nat.pow 2 52 else mantissa) exponent

/-- The double a decimal denotes: `digits` times ten to the power `scale`. A
    decimal far beyond the range is settled by its size alone, so its power
    of ten is never computed. -/
def ofDecimal (negative : Bool) (digits : Nat) (scale : Int) : Binary64 :=
  let size : Int := (Nat.toDigits 10 digits).length + scale
  if digits = 0 || size < -330 then .finite negative 0 leastExponent
  else if 320 < size then .infinite negative
  else if scale < 0 then ofRatio negative digits (Nat.pow 10 (-scale).toNat)
  else ofRatio negative (digits * Nat.pow 10 scale.toNat) 1

/-- The integer a number is, if it is one. -/
def toInt? : Binary64 → Option Int
  | .finite negative mantissa exponent =>
    let magnitude : Option Nat :=
      if 0 ≤ exponent then some (mantissa * Nat.pow 2 exponent.toNat)
      else
        let unit := Nat.pow 2 (-exponent).toNat
        if mantissa % unit = 0 then some (mantissa / unit) else none
    magnitude.map fun n => if negative then -(n : Int) else n
  | .infinite _ | .nan => none

/-- Whether a number is neither infinite nor undefined. -/
def isFinite : Binary64 → Bool
  | .finite .. => true
  | .infinite _ | .nan => false

end Binary64

end BoolCalc
