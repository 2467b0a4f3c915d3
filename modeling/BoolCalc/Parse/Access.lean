import BoolCalc.Parse.Session

/-!
# Access to a Parser

Everything that can be asked of a parser and of the reader that it holds.

The reader of a parser is open to its callers. Tokens can be taken from it
past the parser, one at a time or all that are left, and the parser is not
told: it goes on looking at the token it was looking at, while its reader has
moved. `Access` names these ways along with the requests to the parser itself,
so that histories can be spoken of in which the two are mixed.

## Main definitions

* `Parser.readToken`, `Parser.readAll`: Tokens taken past the parser.
* `Access`: A single access.
* `Parser.access`: The answer to an access, and the parser after it.
* `Parser.accessAll`: The parser after a sequence of accesses.
-/

namespace BoolCalc

/-- A request to a parser, or to the reader that it holds. -/
inductive Access
  | request (request : ParserRequest)
  | readToken
  | readAll
  deriving DecidableEq, Repr

/-- What an access is answered by. -/
inductive AccessAnswer
  | answer (a : ParserAnswer)
  | token (t : Token)
  | tokens (ts : List Token)
  deriving DecidableEq, Repr

namespace Parser

/-- Take a token from the reader past the parser. -/
def readToken (p : Parser) : Step Token :=
  match p.reader.advance with
  | (.ok token, reader) => ⟨.ok token, { p with reader }, [.ofToken token]⟩
  | (.error e, reader) => ⟨.error e, { p with reader }, []⟩

/-- Take the tokens that are left from the reader past the parser. Where one of
    them is an error, the tokens in front of it have been read all the same. -/
def readAll (p : Parser) : Step (List Token) :=
  match p.reader.takeAll with
  | (tokens, none, reader) => ⟨.ok tokens, { p with reader }, tokens.map .ofToken⟩
  | (tokens, some e, reader) => ⟨.error e, { p with reader }, tokens.map .ofToken⟩

/-- The answer to an access, and the parser after it. -/
def access (limit : Nat) (p : Parser) : Access → Step AccessAnswer
  | .request request => (p.perform limit request).map .answer
  | .readToken => p.readToken.map .token
  | .readAll => p.readAll.map .tokens

/-- The parser after a sequence of accesses, whether or not they fail. -/
def accessAll (limit : Nat) (p : Parser) (accesses : List Access) : Parser :=
  accesses.foldl (fun p a => (p.access limit a).parser) p

end Parser

end BoolCalc
