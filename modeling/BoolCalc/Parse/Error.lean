import BoolCalc.Pointer
import BoolCalc.Token.Basic

/-!
# Parse Errors

Why a source is refused, and where.

The cause of an error is kept apart from its place. The place is given by the
reader's cursor, which has already moved past the character that was read
last; that character, one before the cursor, is the one the error is about.
At the very beginning of an empty source there is none, and the error is
about position 0.

## Main definitions

* `Cause`: The ways in which a source can be wrong.
* `ParseError`: A cause at a place.
* `ParseError.message`: The full text of an error, diagram included.
-/

namespace BoolCalc

/-- A way in which a source can be wrong. -/
inductive Cause
  | badSymbol (fault : SymbolFault) (c : Char)
  | noTerm
  | tooDeep
  | missingClose (found : Option Symbol)
  | trailing (found : Symbol)
  deriving DecidableEq, Repr

/-- A cause, with the source it was found in and the reader's cursor. -/
structure ParseError where
  /-- What is wrong. -/
  cause : Cause
  /-- The source that was being read. -/
  source : String
  /-- The position after the last character read. -/
  cursor : Nat
  /-- The layout of the diagram. -/
  style : PointerStyle
  deriving DecidableEq, Repr

namespace ParseError

/-- The position of the character an error is about. -/
def pos (e : ParseError) : Nat := e.cursor - 1

/-- The place of an error. -/
def place (e : ParseError) : Place := ⟨e.source, e.pos, e.style⟩

/-- The diagram of an error. -/
def diagram (e : ParseError) : String := e.place.diagram

/-- The full text of an error. -/
def message (e : ParseError) : String :=
  match e.cause with
  | .badSymbol .invalid c =>
    "Invalid symbol: " ++ String.singleton c ++ " at position " ++ toString e.cursor ++ e.diagram
  | .badSymbol .unknown c =>
    "Unknown symbol: " ++ Text.quotedChar c ++ " at position " ++ toString e.cursor ++ e.diagram
  | .noTerm => "Syntax Error:" ++ e.diagram
  | .tooDeep => "Syntax Error: nesting too deep" ++ e.diagram
  | .missingClose found =>
    "Unexpected symbol: " ++ describe found ++ " " ++ e.diagram ++ " Expected: )"
  | .trailing found =>
    "Unexpected token: " ++ describe (some found) ++ " " ++ e.diagram ++ " Expected type: " ++
      TokenKind.binaryOperator.name ++ ", Received: " ++ found.kind.name

end ParseError

/-- What would have been accepted instead, for the errors that say so. -/
def Cause.expected? : Cause → Option String
  | .missingClose _ => some ")"
  | .trailing _ => some TokenKind.binaryOperator.name
  | .badSymbol .. | .noTerm | .tooDeep => none

/-- The character that was refused, for the errors about a single character. -/
def Cause.character? : Cause → Option Char
  | .badSymbol _ c => some c
  | .noTerm | .tooDeep | .missingClose _ | .trailing _ => none

end BoolCalc
