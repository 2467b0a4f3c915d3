import BoolCalc.Evaluate.Context

/-!
# Assignments

The variables of a source, and all the ways to bind them.

A row of bits is the number of the row in binary, the first variable being
the most significant digit. Rows are listed in ascending order.

## Main definitions

* `collectVariables`: The variables of a source, in order of appearance.
* `bitRows`: All rows of a given width.
* `bindRow`: The bindings a row describes.
-/

namespace BoolCalc

/-- Whether a character has a meaning of its own, so that it cannot name a
    variable. -/
def isReserved (c : Char) : Bool :=
  c == '(' || c == ')' || c == '+' || c == '!' || c == '*' || c == '0' || c == '1'

/-- Add to `seen` the characters that can name a variable and are not there
    yet. -/
def collectFrom (seen : List Char) : List Char → List Char
  | [] => seen
  | c :: rest =>
    if isReserved c || seen.contains c then collectFrom seen rest
    else collectFrom (seen ++ [c]) rest

/-- The characters of a source that can name a variable, each where it first
    appears. Nothing is parsed, so characters without meaning are among them. -/
def collectVariables (source : String) : List String :=
  (collectFrom [] source.toList).map String.singleton

/-- All rows of a given width in ascending order. -/
def bitRows : Nat → List (List Bit)
  | 0 => [[]]
  | n + 1 => (bitRows n).map (.zero :: ·) ++ (bitRows n).map (.one :: ·)

/-- The bindings a row describes. -/
def bindRow (names : List String) (row : List Bit) : Bindings :=
  .ofList (names.zip row)

/-- The bindings of every row over the given names. -/
def assignments (names : List String) : List Bindings :=
  (bitRows names.length).map (bindRow names)

end BoolCalc
