import BoolCalc.Text.Printable

/-!
# Blank Characters

White space in the sense of Unicode, the wider class of blanks, and the
removal of either from both ends of a text.

A blank is white space or one of the four information separators U+001C to
U+001F, which separate words as well.

## Main definitions

* `isWhiteSpace`: Whether a character is white space.
* `isBlank`: Whether a character is blank.
* `trim`: A text without the characters of a class at its ends.
-/

namespace BoolCalc

namespace Text

/-- The code points of white space, as inclusive ranges in ascending order. -/
def whiteSpace : List (Nat × Nat) :=
  [(0x9, 0xD), (0x20, 0x20), (0x85, 0x85), (0xA0, 0xA0), (0x1680, 0x1680), (0x2000, 0x200A),
    (0x2028, 0x2029), (0x202F, 0x202F), (0x205F, 0x205F), (0x3000, 0x3000)]

/-- Whether a character is white space. -/
def isWhiteSpace (c : Char) : Bool := inRanges whiteSpace c.toNat

/-- Whether a character is blank: white space or an information separator. -/
def isBlank (c : Char) : Bool := isWhiteSpace c || (0x1C ≤ c.toNat && c.toNat ≤ 0x1F)

/-- Drop from the end of a list what satisfies the test. -/
def dropEndWhile (p : Char → Bool) (cs : List Char) : List Char :=
  (cs.reverse.dropWhile p).reverse

/-- The text without the characters of a class at either end. -/
def trim (p : Char → Bool) (s : String) : String :=
  String.ofList (dropEndWhile p (s.toList.dropWhile p))

end Text

end BoolCalc
