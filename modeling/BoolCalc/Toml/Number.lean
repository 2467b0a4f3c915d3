import BoolCalc.Numeric.Digits
import BoolCalc.Toml.Value

/-!
# TOML Numbers and Moments

The numbers, dates and times of TOML.

A number takes as many characters as it can. Single underscores may stand
between digits. An integer is decimal, without leading zeros, or written in
another base after `0x`, `0o` or `0b`; a decimal with a fraction or an
exponent is a float. A decimal integer of too many digits is well formed, but
it is not converted: this is a fault of its own, and it ends the reading. The
digits of other bases and of floats are not counted.

A date that names a day the calendar does not have is not a date at all, and
neither is one in the year 0.

## Main definitions

* `Fault`: Why something is not read.
* `readNumber`: A number.
* `readMoment?`: A date, a time, or both.
-/

namespace BoolCalc

namespace Toml

/-- Why something is not read. -/
inductive Fault
  | malformed
  | numberTooLong (digits : Nat)
  deriving DecidableEq, Repr

/-- Something that is read unless there is a fault. -/
abbrev Reading (α : Type) := Except Fault α

/-- What is there, or else the fault that it is not well formed. -/
def wellFormed {α : Type} : Option α → Reading α
  | some a => .ok a
  | none => .error .malformed

/-- The digits at the beginning, single underscores between them left out. -/
def moreDigits (p : Char → Bool) : List Char → List Char × List Char
  | [] => ([], [])
  | c :: rest =>
    if p c then
      let (digits, rest) := moreDigits p rest
      (c :: digits, rest)
    else
      match c, rest with
      | '_', d :: after =>
        if p d then
          let (digits, rest) := moreDigits p after
          (d :: digits, rest)
        else ([], c :: rest)
      | _, _ => ([], c :: rest)

/-- One digit or more. -/
def someDigits? (p : Char → Bool) : List Char → Option (List Char × List Char)
  | [] => none
  | c :: rest => if p c then some (moreDigits p (c :: rest)) else none

/-- An integer in a base other than ten, after its mark. -/
def readBased? : List Char → Option (Value × List Char)
  | '0' :: 'x' :: rest =>
    (someDigits? isHexDigit rest).map fun r => (.integer (ofDigits 16 r.1), r.2)
  | '0' :: 'o' :: rest =>
    (someDigits? (fun c => '0' ≤ c && c ≤ '7') rest).map fun r =>
      (.integer (ofDigits 8 r.1), r.2)
  | '0' :: 'b' :: rest =>
    (someDigits? (fun c => c == '0' || c == '1') rest).map fun r =>
      (.integer (ofDigits 2 r.1), r.2)
  | _ => none

/-- A sign, if there is one, and whether it is negative. -/
def readSign : List Char → Bool × List Char
  | '-' :: rest => (true, rest)
  | '+' :: rest => (false, rest)
  | cs => (false, cs)

/-- The digits before the point: a lone zero, or digits that begin with
    another. -/
def readWhole? : List Char → Option (List Char × List Char)
  | '0' :: rest => some (['0'], rest)
  | cs => someDigits? isDigit cs

/-- The digits after the point, if there are any. -/
def readFraction? : List Char → Option (List Char × List Char)
  | '.' :: rest => someDigits? isDigit rest
  | _ => none

/-- The power of ten after an exponent mark. -/
def readExponent? : List Char → Option (Int × List Char)
  | c :: rest =>
    if c = 'e' || c = 'E' then
      let (negative, rest) := readSign rest
      (someDigits? isDigit rest).map fun r =>
        let n := ofDigits 10 r.1
        (if negative then -(n : Int) else n, r.2)
    else none
  | [] => none

/-- The decimal integer that digits spell, unless there are too many of them. -/
def convertWhole (negative : Bool) (digits : List Char) : Reading Value :=
  if greatestDigits < digits.length then .error (.numberTooLong digits.length)
  else
    let n := ofDigits 10 digits
    .ok (.integer (if negative then -(n : Int) else n))

/-- A decimal integer, or a float if there is a fraction or an exponent. -/
def readDecimal (cs : List Char) : Reading (Value × List Char) := do
  let (negative, rest) := readSign cs
  let (whole, rest) ← wellFormed (readWhole? rest)
  let fraction := readFraction? rest
  let rest := (fraction.map Prod.snd).getD rest
  let exponent := readExponent? rest
  let rest := (exponent.map Prod.snd).getD rest
  if fraction.isNone && exponent.isNone then
    let v ← convertWhole negative whole
    return (v, rest)
  else
    let places := (fraction.map Prod.fst).getD []
    let scale := (exponent.map Prod.fst).getD 0 - places.length
    return (.float (.ofDecimal negative (ofDigits 10 (whole ++ places)) scale), rest)

/-- A float that is not finite. -/
def readSpecial? (cs : List Char) : Option (Value × List Char) :=
  match readSign cs with
  | (negative, 'i' :: 'n' :: 'f' :: rest) => some (.float (.infinite negative), rest)
  | (_, 'n' :: 'a' :: 'n' :: rest) => some (.float .nan, rest)
  | _ => none

/-- A number. -/
def readNumber (cs : List Char) : Reading (Value × List Char) :=
  match readBased? cs with
  | some r => .ok r
  | none =>
    match readDecimal cs with
    | .error .malformed => wellFormed (readSpecial? cs)
    | r => r

/-- The number two digits spell, if it lies between two bounds. -/
def twoDigits? (low high : Nat) (a b : Char) : Option Nat :=
  if isDigit a && isDigit b then
    let n := ofDigits 10 [a, b]
    if low ≤ n && n ≤ high then some n else none
  else none

/-- What is left after a fraction of a second. -/
def skipFraction : List Char → List Char
  | '.' :: c :: rest => if isDigit c then rest.dropWhile isDigit else '.' :: c :: rest
  | cs => cs

/-- What is left after a time of day, if one begins here. -/
def afterTime? : List Char → Option (List Char)
  | a :: b :: ':' :: c :: d :: ':' :: e :: f :: rest => do
    let _ ← twoDigits? 0 23 a b
    let _ ← twoDigits? 0 59 c d
    let _ ← twoDigits? 0 59 e f
    return skipFraction rest
  | _ => none

/-- What is left after the offset from universal time, if one is given. -/
def skipOffset (cs : List Char) : List Char :=
  match cs with
  | 'Z' :: rest | 'z' :: rest => rest
  | s :: a :: b :: ':' :: c :: d :: rest =>
    if (s == '+' || s == '-') && (twoDigits? 0 23 a b).isSome && (twoDigits? 0 59 c d).isSome
    then rest else cs
  | _ => cs

/-- How many days a month has. -/
def daysInMonth (year month : Nat) : Nat :=
  if month = 2 then
    if year % 4 = 0 && (year % 100 ≠ 0 || year % 400 = 0) then 29 else 28
  else if month = 4 || month = 6 || month = 9 || month = 11 then 30
  else 31

/-- A calendar date in the form of its digits. -/
structure Date where
  /-- The year. -/
  year : Nat
  /-- The month, from 1 to 12. -/
  month : Nat
  /-- The day, from 1 to 31. -/
  day : Nat

/-- Whether the calendar has a day. -/
def Date.isValid (d : Date) : Bool := 1 ≤ d.year && d.day ≤ daysInMonth d.year d.month

/-- A date, whether or not the calendar has it. -/
def readDate? : List Char → Option (Date × List Char)
  | a :: b :: c :: d :: '-' :: e :: f :: '-' :: g :: h :: rest => do
    if !([a, b, c, d].all isDigit) then none
    let month ← twoDigits? 1 12 e f
    let day ← twoDigits? 1 31 g h
    return (⟨ofDigits 10 [a, b, c, d], month, day⟩, rest)
  | _ => none

/-- What is left after a date: a time of day and an offset may follow it. -/
def skipTimeOfDay (cs : List Char) : List Char :=
  match cs with
  | separator :: rest =>
    if separator == 'T' || separator == 't' || separator == ' ' then
      match afterTime? rest with
      | some rest => skipOffset rest
      | none => cs
    else cs
  | [] => cs

/-- A date, a time, or both, with what is left after it. The inner result is
    absent when the calendar does not have the date. -/
def readMoment? (cs : List Char) : Option (Option (Value × List Char)) :=
  let upTo (rest : List Char) : Value × List Char :=
    (.moment (String.ofList (cs.take (cs.length - rest.length))), rest)
  match readDate? cs with
  | some (date, rest) => some (if date.isValid then some (upTo (skipTimeOfDay rest)) else none)
  | none => (afterTime? cs).map fun rest => some (upTo rest)

end Toml

end BoolCalc
