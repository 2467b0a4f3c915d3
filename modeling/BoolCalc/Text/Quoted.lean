import BoolCalc.Text.Printable

/-!
# Quoted Text

The written form of a text inside a message: between quotes, with everything
that would not show as itself escaped.

The quote is the single one, unless the text holds a single quote and no
double one. A backslash and the quote in use are escaped by a backslash, tab,
line feed and carriage return by their letters, and every other character
that is not printable by its code point in lower-case hexadecimal, with as
many digits as its size asks for: two, four or eight.

## Main definitions

* `quoted`: The quoted form of a text.
-/

namespace BoolCalc

namespace Text

/-- A number in lower-case hexadecimal, padded with zeros to a width. -/
def hexPadded (width n : Nat) : List Char :=
  let digits := Nat.toDigits 16 n
  List.replicate (width - digits.length) '0' ++ digits

/-- The form of one character between two quotes of the given kind. -/
def escaped (quote c : Char) : List Char :=
  if c = quote || c = '\\' then ['\\', c]
  else if c = '\t' then ['\\', 't']
  else if c = '\n' then ['\\', 'n']
  else if c = '\r' then ['\\', 'r']
  else if isPrintable c then [c]
  else if c.toNat < 0x100 then '\\' :: 'x' :: hexPadded 2 c.toNat
  else if c.toNat < 0x10000 then '\\' :: 'u' :: hexPadded 4 c.toNat
  else '\\' :: 'U' :: hexPadded 8 c.toNat

/-- The quote a text is put between. -/
def quoteFor (cs : List Char) : Char :=
  if cs.contains '\'' && !cs.contains '"' then '"' else '\''

/-- A text between quotes, with all that would not show as itself escaped. -/
def quoted (s : String) : String :=
  let cs := s.toList
  let quote := quoteFor cs
  String.ofList (quote :: cs.flatMap (escaped quote) ++ [quote])

/-- A character in the form of the one-character text that holds it. -/
def quotedChar (c : Char) : String :=
  quoted (String.singleton c)

end Text

end BoolCalc
