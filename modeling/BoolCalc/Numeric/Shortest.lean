import BoolCalc.Numeric.Binary64

/-!
# Shortest Decimals

The decimal text of a double: the fewest significant digits that still denote
it, and of those the nearest to it.

Around every double lies the interval of reals that round to it, its ends
included exactly when the mantissa is even. For one digit, then two, and so
on, the search tests the two neighbours of the number on the grid of decimals
with that many digits. A point of the grid lies in the interval only if one
of these two does, so the first grid with a hit has the fewest digits.

The text is positional for magnitudes from one ten-thousandth up to ten to
the sixteenth, always with a fraction part, and scientific beyond.

## Main definitions

* `Decimal`: Digits and a power of ten.
* `shortest`: The shortest decimal that denotes a number.
* `Binary64.text`: The text of a number.
-/

namespace BoolCalc

/-- A non-negative decimal: its digits times a power of ten. -/
structure Decimal where
  /-- The significant digits, as a number. -/
  digits : Nat
  /-- The power of ten they are multiplied by. -/
  scale : Int
  deriving DecidableEq, Repr

namespace Shortest

/-- A positive quotient with the interval of quotients that round to it, all
    over one denominator. -/
structure Target where
  /-- The lower end of the interval. -/
  low : Nat
  /-- The number itself. -/
  value : Nat
  /-- The upper end of the interval. -/
  high : Nat
  /-- The common denominator. -/
  den : Nat
  /-- Whether the ends round to the number too. -/
  closed : Bool

/-- The interval around a positive number. Its neighbour below is only half
    as far away when the mantissa is the least with 53 digits. -/
def Target.ofFinite (mantissa : Nat) (exponent : Int) : Target :=
  let below := if mantissa = Nat.pow 2 52 && Binary64.leastExponent < exponent then 1 else 2
  let e := exponent - 2
  let up := Nat.pow 2 e.toNat
  ⟨(4 * mantissa - below) * up, 4 * mantissa * up, (4 * mantissa + 2) * up, Nat.pow 2 (-e).toNat,
    mantissa % 2 == 0⟩

/-- The target in units of ten to the power `scale`. -/
def Target.inUnits (t : Target) (scale : Int) : Target :=
  let up := Nat.pow 10 (-scale).toNat
  ⟨t.low * up, t.value * up, t.high * up, t.den * Nat.pow 10 scale.toNat, t.closed⟩

/-- Whether a whole number of units rounds to the target. -/
def Target.holds (t : Target) (d : Nat) : Bool :=
  if t.closed then t.low ≤ d * t.den && d * t.den ≤ t.high
  else t.low < d * t.den && d * t.den < t.high

/-- The decimal with `digits` units. Rounding up from nine on the grid of one
    digit gives ten, which is a single one on the next grid. -/
def inDigits (digits : Nat) (scale : Int) : Decimal :=
  if digits = 10 then ⟨1, scale + 1⟩ else ⟨digits, scale⟩

/-- The point nearest to the target among its two neighbours on the grid of
    one scale, if it rounds to the target at all. -/
def nearest? (t : Target) (scale : Int) : Option Decimal :=
  let u := t.inUnits scale
  let down := u.value / u.den
  let rest := u.value % u.den
  let belowHolds := u.holds down && down != 0
  let aboveHolds := u.holds (down + 1)
  let belowNearer := 2 * rest < u.den || (2 * rest == u.den && down % 2 == 0)
  if belowHolds && (belowNearer || !aboveHolds) then some (inDigits down scale)
  else if aboveHolds then some (inDigits (down + 1) scale)
  else none

/-- How many places behind the point a quotient below one begins. -/
def leadingZeros : Nat → Nat → Nat → Nat
  | 0, _, _ => 0
  | fuel + 1, num, den => if den ≤ num then 0 else leadingZeros fuel (num * 10) den + 1

/-- The number of digits in front of the point; zero or negative when the
    first digit lies behind it. -/
def Target.magnitude (t : Target) : Int :=
  if t.den ≤ t.value then (Nat.toDigits 10 (t.value / t.den)).length
  else 1 - (leadingZeros 400 t.value t.den : Int)

/-- Try the grids of `count` digits, `count + 1` digits, and so on. -/
def search (t : Target) (magnitude : Int) : Nat → Nat → Option Decimal
  | 0, _ => none
  | fuel + 1, count =>
    match nearest? t (magnitude - count) with
    | some d => some d
    | none => search t magnitude fuel (count + 1)

end Shortest

/-- The shortest decimal that denotes a positive number. Seventeen digits
    always suffice, and past them the exact digits of the grid are used. -/
def shortest (mantissa : Nat) (exponent : Int) : Decimal :=
  let t := Shortest.Target.ofFinite mantissa exponent
  let m := t.magnitude
  let finest := t.inUnits (m - 17)
  (Shortest.search t m 17 1).getD ⟨finest.value / finest.den, m - 17⟩

namespace Decimal

/-- The digits of a decimal as characters. -/
def chars (d : Decimal) : List Char := Nat.toDigits 10 d.digits

/-- Positional notation, always with at least one digit on either side of the
    point. -/
def positional (d : Decimal) : String :=
  let cs := d.chars
  if 0 ≤ d.scale then
    String.ofList (cs ++ List.replicate d.scale.toNat '0' ++ ['.', '0'])
  else
    let places := (-d.scale).toNat
    let padded := List.replicate (places + 1 - cs.length) '0' ++ cs
    let whole := padded.length - places
    String.ofList (padded.take whole ++ '.' :: padded.drop whole)

/-- Scientific notation with a signed exponent of at least two digits. -/
def scientific (d : Decimal) : String :=
  let cs := d.chars
  let exponent := d.scale + cs.length - 1
  let fraction := if cs.length ≤ 1 then [] else '.' :: cs.drop 1
  let digits := Nat.toDigits 10 exponent.natAbs
  let sign := if exponent < 0 then '-' else '+'
  String.ofList
    (cs.take 1 ++ fraction ++ 'e' :: sign :: List.replicate (2 - digits.length) '0' ++ digits)

end Decimal

namespace Binary64

/-- The text of a number: the shortest decimal that denotes it. -/
def text : Binary64 → String
  | .nan => "nan"
  | .infinite negative => if negative then "-inf" else "inf"
  | .finite negative mantissa exponent =>
    let body :=
      if mantissa = 0 then "0.0"
      else
        let d := shortest mantissa exponent
        let point := d.scale + d.chars.length
        if -4 < point && point ≤ 16 then d.positional else d.scientific
    if negative then "-" ++ body else body

end Binary64

end BoolCalc
