import BoolCalc.Parse.Error

/-!
# Readers

A source with a cursor, from which tokens are taken one at a time.

Nothing is read before it is asked for, so whoever takes the tokens sees only
as much of the source as was needed. A character that stands for nothing is
an error, but the cursor moves past it all the same: the reader can go on
behind it, and the error can point at it. Once the cursor has reached the end
every further token is the end of the input.

`Reader.advance` takes a single token and `Reader.takeAll` all that are left.
`tokenize` lists what successive requests on a fresh reader answer until the
end of the input or the first error, whichever comes first.

## Main definitions

* `Reader`: A source and a cursor.
* `Reader.advance`: Take one token.
* `Reader.takeAll`: Take tokens up to the end or the first error.
* `tokenize`: The answers of a fresh reader, the last one included.
-/

namespace BoolCalc

/-- A source and the position of the next character to be read. -/
structure Reader where
  /-- The source. -/
  source : String
  /-- The position of the next character. -/
  index : Nat
  /-- The layout of diagrams in errors. -/
  style : PointerStyle
  deriving DecidableEq, Repr

namespace Reader

/-- A reader at the beginning of a source. -/
def ofSource (source : String) (style : PointerStyle) : Reader := ⟨source, 0, style⟩

/-- The same reader at the beginning of another source. -/
def load (r : Reader) (source : String) : Reader := { r with source, index := 0 }

/-- The characters that have not been read. -/
def remaining (r : Reader) : List Char := r.source.toList.drop r.index

/-- The error that something is wrong at the cursor. -/
def fail (r : Reader) (cause : Cause) : ParseError := ⟨cause, r.source, r.index, r.style⟩

/-- The character that was read last, as a place. -/
def place (r : Reader) : Place := ⟨r.source, r.index - 1, r.style⟩

/-- Take one token. -/
def advance (r : Reader) : Except ParseError Token × Reader :=
  match r.remaining with
  | [] => (.ok ⟨none, r.source.length⟩, r)
  | c :: _ =>
    let past := { r with index := r.index + 1 }
    match Symbol.classify c with
    | .ok s => (.ok ⟨some s, r.index⟩, past)
    | .error fault => (.error (past.fail (.badSymbol fault c)), past)

/-- The tokens of the characters from a position on: up to the end of the
    input, or up to the first character that stands for nothing, which is
    given with its position. -/
def scan : List Char → Nat → List Token × Option (Nat × SymbolFault × Char)
  | [], index => ([⟨none, index⟩], none)
  | c :: rest, index =>
    match Symbol.classify c with
    | .ok s =>
      let (tokens, stop) := scan rest (index + 1)
      (⟨some s, index⟩ :: tokens, stop)
    | .error fault => ([], some (index, fault, c))

/-- Take every token up to the end of the input or the first error. -/
def takeAll (r : Reader) : List Token × Option ParseError × Reader :=
  match scan r.remaining r.index with
  | (tokens, none) => (tokens, none, { r with index := r.source.length })
  | (tokens, some (index, fault, c)) =>
    let past := { r with index := index + 1 }
    (tokens, some (past.fail (.badSymbol fault c)), past)

end Reader

/-- What successive requests for a token answer, until the end of the input or
    an error has been answered. -/
def tokenize (source : String) : List (Except ParseError Token) :=
  let (tokens, error, _) := (Reader.ofSource source .html).takeAll
  tokens.map .ok ++ error.toList.map .error

end BoolCalc
