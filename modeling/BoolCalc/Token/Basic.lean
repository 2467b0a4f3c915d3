import BoolCalc.Token.Symbol
import BoolCalc.Text.Quoted

/-!
# Tokens

Symbols with their positions, and the end of the input.

A token is what the parser looks at: the symbol of one character of the
source, or the end, and where it was found. The end is found at the length of
the source.

## Main definitions

* `Token`: A symbol or the end of the input, at a position.
-/

namespace BoolCalc

/-- A symbol, or the end of the input where there is none, at a position. -/
structure Token where
  /-- The symbol, absent at the end of the input. -/
  symbol : Option Symbol
  /-- The position in the source. -/
  pos : Nat
  deriving DecidableEq, Repr

/-- The kind of a symbol, or of the end of the input. -/
def kindOf : Option Symbol → TokenKind
  | some s => s.kind
  | none => .endOfInput

/-- How messages name a symbol, or the end of the input. -/
def describe : Option Symbol → String
  | some s => String.singleton s.char
  | none => "end of input"

/-- The quoted form of a symbol; the end of the input has none. -/
def quotedSymbol : Option Symbol → String
  | some s => Text.quotedChar s.char
  | none => "None"

namespace Token

/-- The kind of a token. -/
def kind (t : Token) : TokenKind := kindOf t.symbol

/-- The character of a token. -/
def lexeme (t : Token) : Option Char := t.symbol.map Symbol.char

/-- Whether a token is the end of the input. -/
def isEnd (t : Token) : Bool := t.symbol.isNone

/-- A token in the form that is shown to developers. -/
def text (t : Token) : String :=
  "Token(" ++ t.kind.name ++ ", " ++ quotedSymbol t.symbol ++ ", pos=" ++ toString t.pos ++ ")"

end Token

end BoolCalc
