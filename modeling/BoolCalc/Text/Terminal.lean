/-!
# Terminal Sequences

Control sequences of terminals inside a text, and the text without them.

A sequence is the escape character, an opening bracket, any number of
parameter characters, and one letter. A text is searched once from its
beginning, so what two removed sequences leave behind is not looked at again,
and an escape character that begins no whole sequence stays.

## Main definitions

* `sequenceLength`: How long the sequence is that a text begins with.
* `plain`: A text without its sequences.
-/

namespace BoolCalc

namespace Text

/-- Whether a character is a parameter inside a sequence. -/
def isParameter (c : Char) : Bool := c == ';' || c == '?' || c.isDigit

/-- The length of the sequence at the beginning, or zero if there is none. -/
def sequenceLength : List Char → Nat
  | '\x1b' :: '[' :: rest =>
    match rest.dropWhile isParameter with
    | [] => 0
    | c :: _ => if c.isAlpha then (rest.takeWhile isParameter).length + 3 else 0
  | _ => 0

/-- The characters that belong to no sequence, where the first `inside` of them
    are still part of one. -/
def plainChars (inside : Nat) : List Char → List Char
  | [] => []
  | c :: rest =>
    match inside with
    | k + 1 => plainChars k rest
    | 0 =>
      match sequenceLength (c :: rest) with
      | 0 => c :: plainChars 0 rest
      | k + 1 => plainChars k rest

/-- The text without its sequences. -/
def plain (s : String) : String := String.ofList (plainChars 0 s.toList)

end Text

end BoolCalc
