import BoolCalc.Numeric.Digits
import BoolCalc.Toml.Value

/-!
# TOML Texts and Keys

The quoted texts of TOML, and the keys made of them.

A text is basic, between double quotes and with escapes, or literal, between
single quotes and without. Either can run over several lines between triple
quotes, in which case a line feed right after the opening quotes is left out
and up to two quotes may stand directly before the closing ones. In a basic
text of several lines, a backslash at the end of a line takes the line break
and the white space after it with it.

Control characters other than the tab are refused everywhere; the line feed
is admitted where a text may run over several lines.

Each reader takes the characters from where it begins and returns what it
read with the characters that are left.

## Main definitions

* `readText?`: A text of any of the four kinds.
* `readKey`: A dotted key.
-/

namespace BoolCalc

namespace Toml

/-- White space within a line. -/
def isSpace (c : Char) : Bool := c == ' ' || c == '\t'

/-- White space, line feeds included. -/
def isSpaceOrBreak (c : Char) : Bool := isSpace c || c == '\n'

/-- Leave out white space within a line. -/
def skipSpace (cs : List Char) : List Char := cs.dropWhile isSpace

/-- Whether a character is refused; a line feed is admitted on request. -/
def isRefused (multiline : Bool) (c : Char) : Bool :=
  (c.toNat < 0x20 || c.toNat == 0x7F) && !(c == '\t' || (multiline && c == '\n'))

/-- The character with the code point that hexadecimal digits spell. -/
def codePoint? (digits : List Char) : Option Char :=
  let n := ofDigits 16 digits
  if digits.all isHexDigit && n.isValidChar then some (Char.ofNat n) else none

/-- The character that a backslash and a letter stand for. -/
def letterEscape? (c : Char) : Option Char :=
  if c = 'b' then some '\x08'
  else if c = 't' then some '\t'
  else if c = 'n' then some '\n'
  else if c = 'f' then some '\x0c'
  else if c = 'r' then some '\r'
  else if c = '"' then some '"'
  else if c = '\\' then some '\\'
  else none

/-- Whether nothing but white space is left on the line. -/
def endsLine (cs : List Char) : Bool := (skipSpace cs).head? == some '\n'

/-- Read a basic text from after its opening quotes to past its closing ones.
    What was read is collected in reverse. While `skipping` is set, white
    space is left out. -/
def readBasic (multiline skipping : Bool) (done : List Char) :
    List Char → Option (List Char × List Char)
  | [] => none
  | c :: rest =>
    if skipping && isSpaceOrBreak c then readBasic multiline true done rest
    else if c = '"' then
      if multiline then
        match rest with
        | '"' :: '"' :: after => some (done.reverse, after)
        | _ => readBasic multiline false (c :: done) rest
      else some (done.reverse, rest)
    else if c = '\\' then
      match rest with
      | 'u' :: a :: b :: d :: e :: after =>
        match codePoint? [a, b, d, e] with
        | some escaped => readBasic multiline false (escaped :: done) after
        | none => none
      | 'U' :: a :: b :: d :: e :: f :: g :: h :: i :: after =>
        match codePoint? [a, b, d, e, f, g, h, i] with
        | some escaped => readBasic multiline false (escaped :: done) after
        | none => none
      | x :: after =>
        if multiline && isSpaceOrBreak x then
          if endsLine (x :: after) then readBasic multiline true done after else none
        else
          match letterEscape? x with
          | some escaped => readBasic multiline false (escaped :: done) after
          | none => none
      | [] => none
    else if isRefused multiline c then none
    else readBasic multiline false (c :: done) rest

/-- Read a literal text from after its opening quotes to past its closing
    ones. -/
def readLiteral (multiline : Bool) (done : List Char) :
    List Char → Option (List Char × List Char)
  | [] => none
  | c :: rest =>
    if c = '\'' then
      if multiline then
        match rest with
        | '\'' :: '\'' :: after => some (done.reverse, after)
        | _ => readLiteral multiline (c :: done) rest
      else some (done.reverse, rest)
    else if isRefused multiline c then none
    else readLiteral multiline (c :: done) rest

/-- Leave out one line feed at the beginning. -/
def dropBreak : List Char → List Char
  | '\n' :: rest => rest
  | cs => cs

/-- Up to two quotes directly after the closing quotes belong to the text. -/
def withClosingQuotes (quote : Char) (body : List Char) : List Char → String × List Char
  | a :: b :: rest =>
    if a = quote then
      if b = quote then (String.ofList (body ++ [quote, quote]), rest)
      else (String.ofList (body ++ [quote]), b :: rest)
    else (String.ofList body, a :: b :: rest)
  | [a] => if a = quote then (String.ofList (body ++ [quote]), []) else (String.ofList body, [a])
  | [] => (String.ofList body, [])

/-- Read a text of one line that begins with a quote. There is no result if
    none begins here or if it is not well formed. -/
def readLineText? : List Char → Option (String × List Char)
  | '"' :: rest => (readBasic false false [] rest).map fun r => (String.ofList r.1, r.2)
  | '\'' :: rest => (readLiteral false [] rest).map fun r => (String.ofList r.1, r.2)
  | _ => none

/-- Read a text of any kind that begins with a quote. -/
def readText? : List Char → Option (String × List Char)
  | '"' :: '"' :: '"' :: rest =>
    (readBasic true false [] (dropBreak rest)).map fun r => withClosingQuotes '"' r.1 r.2
  | '\'' :: '\'' :: '\'' :: rest =>
    (readLiteral true [] (dropBreak rest)).map fun r => withClosingQuotes '\'' r.1 r.2
  | cs => readLineText? cs

/-- Whether a character can stand in a key without quotes. -/
def isBareKeyChar (c : Char) : Bool := c.isAlphanum || c == '-' || c == '_'

/-- Read one part of a key. -/
def readKeyPart (cs : List Char) : Option (String × List Char) :=
  match cs.takeWhile isBareKeyChar with
  | [] => readLineText? cs
  | part => some (String.ofList part, cs.dropWhile isBareKeyChar)

/-- Read a dotted key, with the white space after it. Each part takes at least
    one character, so the characters given bound the number of parts. -/
def readKeyParts : Nat → List Char → Option (Key × List Char)
  | 0, _ => none
  | fuel + 1, cs => do
    let (part, rest) ← readKeyPart cs
    match skipSpace rest with
    | '.' :: rest =>
      let (parts, rest) ← readKeyParts fuel (skipSpace rest)
      return (part :: parts, rest)
    | rest => return ([part], rest)

/-- Read a dotted key, with the white space after it. -/
def readKey (cs : List Char) : Option (Key × List Char) := readKeyParts (cs.length + 1) cs

end Toml

end BoolCalc
