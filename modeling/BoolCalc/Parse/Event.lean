import BoolCalc.Token.Basic

/-!
# Parse Events

What a parser reports while it works.

Every token is reported when it is taken from the source, every term when it
begins, every leaf when it has been read, and every operator each time it is
weighed against an expression that could end before it. The events of a parse
therefore show how often each character was looked at and in which order the
tree came about.

## Main definitions

* `Event`: Something a parser reports.
* `Event.message`: The line an event is reported by.
-/

namespace BoolCalc

/-- Something a parser reports. -/
inductive Event
  | tokenRead (s : Symbol)
  | endReached
  | termStart (s : Option Symbol)
  | leafReached (c : Char)
  | operatorWeighed (op : BinaryOp)
  | constructed (text : String) (fragments : Nat)
  deriving DecidableEq, Repr

/-- The line an event is reported by. -/
def Event.message : Event → String
  | tokenRead s => "Token read: " ++ s.kind.name ++ " " ++ Text.quotedChar s.char
  | endReached => "End of input reached."
  | termStart s => "Unary term starts at " ++ quotedSymbol s
  | leafReached c => "Terminal reached: " ++ String.singleton c
  | operatorWeighed op =>
    "Current operator " ++ op.text ++ ", precedence " ++ toString op.precedence
  | constructed text fragments =>
    "Constructed " ++ text ++ " with " ++ toString fragments ++ " fragment(s)"

/-- The event of taking a token from the source. -/
def Event.ofToken (t : Token) : Event :=
  match t.symbol with
  | some s => tokenRead s
  | none => endReached

end BoolCalc
