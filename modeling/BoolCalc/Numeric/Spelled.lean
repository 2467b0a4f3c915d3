import BoolCalc.Numeric.Digits
import BoolCalc.Text.Blank

/-!
# Spelled Integers

Integers as they are spelled in text, more freely than a format would allow.

In its plain form an integer is an optional minus sign and digits without a
leading zero, limited in number. Any other text is tidied first. White space
around the number is left out, and so are a plus sign, zeros in front of it
and a fraction that is all zeros. Single underscores may stand between its
characters, and any number of them among the zeros in front. Those zeros are
left out once: after a minus sign that begins the number, or else at its very
beginning, where a minus sign may follow them.

Only a text that is too long as it stands is reported for its length. One that
is still too long when it has been tidied is unreadable like any other.

## Main definitions

* `SpellingError`: Why a text spells no integer.
* `readPlain`: An integer in its plain form.
* `tidy`: A text without what a plain form does not have.
* `spelledInteger`: The integer a text spells.
-/

namespace BoolCalc

/-- Why a text spells no integer. -/
inductive SpellingError
  | unreadable
  | tooLong
  deriving DecidableEq, Repr

namespace Spelled

/-- The most digits a number may have. -/
def greatestLength : Nat := 4300

/-- The characters after a plus sign, if there is one. A second sign may not
    follow it. -/
def dropPlus : List Char → Option (List Char)
  | '+' :: '-' :: _ => none
  | '+' :: rest => some rest
  | cs => some cs

/-- Whether a character begins the part of a number that is kept. -/
def isStart (c : Char) : Bool := c == '-' || (isDigit c && c != '0')

/-- What is kept after leading zeros, given the last of them. Underscores count
    among the zeros. The last stays in front of a point and at the end. -/
def afterZeros (last : Char) : List Char → Option (List Char)
  | [] => some [last]
  | c :: rest =>
    if c = '0' || c = '_' then afterZeros c rest
    else if isStart c then some (c :: rest)
    else if c = '.' then some (last :: c :: rest)
    else none

/-- The characters of a number without leading zeros. It has to begin with a
    zero or with what is kept. -/
def dropZeros : List Char → Option (List Char)
  | [] => none
  | c :: rest =>
    if c = '0' then afterZeros c rest
    else if isStart c then some (c :: rest)
    else none

/-- The characters of a number without leading zeros, those after a minus sign
    included. -/
def dropSignedZeros : List Char → Option (List Char)
  | '-' :: rest => (dropZeros rest).map ('-' :: ·)
  | cs => dropZeros cs

/-- The characters of a number without a fraction of one zero or more. -/
def dropFraction (cs : List Char) : List Char :=
  let fraction := (cs.dropWhile (· != '.')).drop 1
  if !fraction.isEmpty && fraction.all (· == '0') then cs.takeWhile (· != '.') else cs

/-- Whether every underscore has some other character on either side; `between`
    says whether the character before is such a one. -/
def isSpaced (between : Bool) : List Char → Bool
  | [] => between
  | c :: rest => if c = '_' then between && isSpaced false rest else isSpaced true rest

/-- The characters of a number without its underscores, if they are single and
    stand inside of it. -/
def dropUnderscores (cs : List Char) : List Char :=
  if isSpaced false cs then cs.filter (· != '_') else cs

/-- An integer in its plain form. That it is too long is found out before what
    comes after its digits. -/
def readPlain (cs : List Char) : Except SpellingError Int :=
  let negative := cs.head? == some '-'
  let body := if negative then cs.drop 1 else cs
  let digits := body.takeWhile isDigit
  if digits = [] || (digits.head? = some '0' && digits != ['0']) then .error .unreadable
  else if greatestLength < digits.length then .error .tooLong
  else if digits.length < body.length then .error .unreadable
  else
    let n : Int := ofDigits 10 digits
    .ok (if negative then -n else n)

/-- The characters of a text without what a plain form does not have, unless
    they begin in a way no number does. -/
def tidy (s : String) : Option (List Char) :=
  ((dropPlus (Text.trim Text.isWhiteSpace s).toList).bind dropSignedZeros).map fun cs =>
    dropUnderscores (dropFraction cs)

end Spelled

/-- The integer a text spells, as it stands or tidied. -/
def spelledInteger (s : String) : Except SpellingError Int :=
  match Spelled.readPlain s.toList with
  | .ok n => .ok n
  | .error .tooLong => .error .tooLong
  | .error .unreadable =>
    match (Spelled.tidy s).map Spelled.readPlain with
    | some (.ok n) => .ok n
    | _ => .error .unreadable

end BoolCalc
