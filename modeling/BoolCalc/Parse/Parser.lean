import BoolCalc.Expr.Fragments
import BoolCalc.Parse.Machine
import BoolCalc.Token.Reader

/-!
# Parsers

A parser that is driven one request at a time and keeps what it parsed.

A parser holds a reader, the token it is looking at, and the tree and
fragments of the last source it parsed as a whole. A caller can ask for the
whole parse, or take single steps: the next token, a closing parenthesis, an
expression above a bound, a term. A step that fails leaves the reader where
the failure was noticed and can be followed by any other step; only the whole
parse ever touches the tree and the fragments, and it clears them before it
starts, so they are never those of a failed parse.

Every step also returns what it reported.

## Main definitions

* `Parser`: The state between two requests.
* `Parser.construct`: Parse the whole source.
* `Parser.advance`, `Parser.closeGroup`, `Parser.expression`, `Parser.term`,
  `Parser.load`: The single steps.
* `parse`: The tree of a source.
-/

namespace BoolCalc

/-- How many levels of nesting an expression may have, unless a caller says
    otherwise. -/
def defaultLimit : Nat := 1000

/-- The state of a parser between two requests. -/
structure Parser where
  /-- The source and how far it has been read. -/
  reader : Reader
  /-- The token being looked at, absent until one has been read. -/
  current : Option Token
  /-- The tree of the last whole parse, unless it failed. -/
  tree : Option Expr
  /-- The fragments of that tree. -/
  fragments : List Expr
  deriving DecidableEq, Repr

/-- What a request comes to: its answer, the state after it, and what was
    reported. -/
structure Step (α : Type) where
  /-- The answer. -/
  answer : Except ParseError α
  /-- The state after the request. -/
  parser : Parser
  /-- What was reported, in order. -/
  log : List Event

namespace Parser

/-- A parser that has read nothing yet. -/
def ofSource (source : String) (style : PointerStyle) : Parser :=
  ⟨.ofSource source style, none, none, []⟩

/-- The same parser at the beginning of another source. What it was looking at
    and what it parsed before stay as they are. -/
def load (p : Parser) (source : String) : Parser := { p with reader := p.reader.load source }

/-- Take the next token. -/
def advance (p : Parser) : Step Token :=
  match p.reader.advance with
  | (.ok token, reader) =>
    ⟨.ok token, { p with reader, current := some token }, [.ofToken token]⟩
  | (.error e, reader) => ⟨.error e, { p with reader }, []⟩

/-- The token being looked at, which is read first if there is none. -/
def look (p : Parser) : Step Token :=
  match p.current with
  | some token => ⟨.ok token, p, []⟩
  | none => p.advance

/-- Go past a closing parenthesis. -/
def closeGroup (p : Parser) : Step Token :=
  match p.look with
  | ⟨.error e, p, log⟩ => ⟨.error e, p, log⟩
  | ⟨.ok token, p, log⟩ =>
    if token.symbol = some .closeParen then
      let step := p.advance
      { step with log := log ++ step.log }
    else ⟨.error (p.reader.fail (.missingClose token.symbol)), p, log⟩

/-- The parser after a run, with what the run came to. -/
def settle (p : Parser) (run : Run) : Step Expr :=
  let reader := { p.reader with index := run.index }
  ⟨run.outcome.mapError reader.fail, { p with reader, current := run.current }, run.log⟩

/-- Parse towards a goal from the token being looked at. -/
def pursue (limit : Nat) (p : Parser) (goal : Goal) : Step Expr :=
  p.settle <| match p.current with
    | some token => resume limit goal token p.reader.remaining p.reader.index
    | none => consume limit goal none (.want []) p.reader.remaining p.reader.index

/-- Parse an expression whose operators at the outermost level all bind more
    tightly than a bound. -/
def expression (limit : Nat) (p : Parser) (bound : Int) (whole : Bool) : Step Expr :=
  p.pursue limit (.expression bound whole)

/-- Parse a single term. -/
def term (limit : Nat) (p : Parser) : Step Expr := p.pursue limit .term

/-- The parser at the beginning of its source, without a tree. -/
def restart (p : Parser) : Parser :=
  { p with reader := p.reader.load p.reader.source, tree := none, fragments := [] }

/-- Parse the whole source from its beginning. The tree is kept only if the
    parse succeeds and the tree itself is within the limit. -/
def construct (limit : Nat) (p : Parser) : Step Expr :=
  let p := p.restart
  let step := p.settle
    (consume limit (.expression 0 true) p.current (.want []) p.reader.remaining p.reader.index)
  match step.answer with
  | .error _ => step
  | .ok e =>
    if limit < e.height then
      { step with answer := .error (step.parser.reader.fail .tooDeep) }
    else
      let fragments := e.fragments
      ⟨.ok e, { step.parser with tree := some e, fragments },
        step.log ++ [.constructed e.text fragments.length]⟩

end Parser

/-- The tree of a source. -/
def parse (limit : Nat) (source : String) (style : PointerStyle) : Except ParseError Expr :=
  ((Parser.ofSource source style).construct limit).answer

end BoolCalc
