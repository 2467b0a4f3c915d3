import BoolCalc.Token.Reader

/-!
# Token Streams

Requests for tokens one after another, to a reader and to a stream.

A reader answers every request. It goes past a character that stands for nothing,
and once it is at the end it keeps answering with the end. A stream takes its
tokens from a reader too, one for each request, but it ends: when it has given out
the end of the input, or an error, it is used up and gives out nothing more,
whatever its reader has left to read.

## Main definitions

* `Reader.skip`: The reader after a number of requests, whether they fail or not.
* `Reader.answer`, `Reader.answers`: What the requests are answered by.
* `TokenStream`: A reader and whether the stream of its tokens has ended.
* `TokenStream.next`: The answer to a request, and the stream after it.
-/

namespace BoolCalc

namespace Reader

/-- The reader after a number of requests for a token, whether they fail or
    not. -/
def skip (r : Reader) : Nat → Reader
  | 0 => r
  | n + 1 => (r.skip n).advance.2

/-- The answer to the request that comes after a number of others. -/
def answer (r : Reader) (i : Nat) : Except ParseError Token := (r.skip i).advance.1

/-- The answers to a number of requests. -/
def answers (r : Reader) (n : Nat) : List (Except ParseError Token) :=
  (List.range n).map r.answer

end Reader

/-- A stream of the tokens that a reader has left. -/
structure TokenStream where
  /-- Where the tokens are taken from. -/
  reader : Reader
  /-- Whether the last token or an error has been given out. -/
  finished : Bool
  deriving DecidableEq, Repr

namespace TokenStream

/-- The stream of the tokens of a source. -/
def ofSource (source : String) : TokenStream := ⟨.ofSource source .html, false⟩

/-- Whether an answer is the last of a stream: the end of the input or an
    error. -/
def isLast : Except ParseError Token → Bool
  | .ok t => t.isEnd
  | .error _ => true

/-- The answer to a request, absent if the stream has ended, and the stream after
    it. -/
def next (s : TokenStream) : Option (Except ParseError Token) × TokenStream :=
  if s.finished then (none, s)
  else
    match s.reader.advance with
    | (answer, reader) => (some answer, ⟨reader, isLast answer⟩)

/-- The stream after a number of requests. -/
def skip (s : TokenStream) : Nat → TokenStream
  | 0 => s
  | n + 1 => (s.skip n).next.2

end TokenStream

end BoolCalc
