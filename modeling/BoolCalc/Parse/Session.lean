import BoolCalc.Parse.Parser

/-!
# Parser Sessions

Sequences of requests to one parser.

What a parser answers depends on the requests before, since a request moves
the reader and a failed one leaves it where it is. A session names the
requests, so that a whole history can be spoken of at once.

## Main definitions

* `ParserRequest`: A single request.
* `Parser.perform`: The answer to a request, and the parser after it.
* `Parser.performAll`: The parser after a sequence of requests.
-/

namespace BoolCalc

/-- A request to a parser. -/
inductive ParserRequest
  | construct
  | advance
  | closeGroup
  | expression (bound : Int) (whole : Bool)
  | term
  | load (source : String)
  deriving DecidableEq, Repr

/-- What a request is answered by. -/
inductive ParserAnswer
  | tree (e : Expr)
  | token (t : Token)
  | loaded
  deriving DecidableEq, Repr

/-- The same step with its answer put another way. -/
def Step.map {α β : Type} (f : α → β) (step : Step α) : Step β :=
  ⟨step.answer.map f, step.parser, step.log⟩

namespace Parser

/-- The answer to a request, and the parser after it. -/
def perform (limit : Nat) (p : Parser) : ParserRequest → Step ParserAnswer
  | .construct => (p.construct limit).map .tree
  | .advance => p.advance.map .token
  | .closeGroup => p.closeGroup.map .token
  | .expression bound whole => (p.expression limit bound whole).map .tree
  | .term => (p.term limit).map .tree
  | .load source => ⟨.ok .loaded, p.load source, []⟩

/-- The parser after a sequence of requests, whether or not they fail. -/
def performAll (limit : Nat) (p : Parser) (requests : List ParserRequest) : Parser :=
  requests.foldl (fun p request => (p.perform limit request).parser) p

end Parser

end BoolCalc
