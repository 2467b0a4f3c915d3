import BoolCalc.Parse.Session
import BoolCalc.Proofs.Parsing

/-!
# Whole Parses after a History

A whole parse is the same whatever was asked of the parser before.

Requests leave traces. They move the reader, they leave it behind a character
that stands for nothing, they load another source while a token of the old one
is still being looked at, and they keep or clear a tree. A whole parse has to
overrule all of that, and it does so by starting over: it takes the reader back
to the beginning, clears the tree and the fragments, and reads the first token
anew.

One trace is left. The token that was being looked at is still there while the
first character is read, and if that character stands for nothing then no token
has replaced it. `Run.lookingAt` puts such a token before a run, and that is all
that tells a whole parse from the one of a fresh parser. This is shown for a
parser in any state, so that nothing has to be known about the states that a
history can lead to. What a history decides is the source, which is the one that
was loaded last; the layout of diagrams it leaves as it is.

## Main definitions

* `Run.lookingAt`, `Step.lookingAt`: A run or a step with a token before it.
* `Reader.Agrees`: Readers of the same source.
* `Parser.MovedFrom`: States with the same source and the same tree.
* `ParserRequest.sourceAfter`: The source after a request.

## Theorems

* `consume_lookingAt`: What a token before a run comes to.
* `construct_eq_fresh`: A whole parse is that of a fresh parser.
* `perform_construct_or_load_or_move`: What kinds of requests there are.
* `agrees_perform`, `agrees_performAll`: What a request and a history do to the
  source and the layout.
* `construct_forgets_history`: Whole parses do not depend on the past.
-/

namespace BoolCalc

/-- The same run with a token before it, which is still the last one if the run
    has read none. -/
def Run.lookingAt (current : Option Token) (run : Run) : Run :=
  { run with current := run.current.or current }

/-- The same step with a token before it. -/
def Step.lookingAt {α : Type} (current : Option Token) (step : Step α) : Step α :=
  { step with parser := { step.parser with current := step.parser.current.or current } }

/-- Once there is a token there is always one. -/
theorem isSome_current_consume (limit : Nat) (goal : Goal) (token : Token) (σ : Stage)
    (cs : List Char) (index : Nat) :
    (consume limit goal (some token) σ cs index).current.isSome := by
  -- A token is there before the first character, and each one that is read replaces it.
  induction cs generalizing token σ index with
  | nil => rfl
  | cons c rest ih =>
      cases hc : Symbol.classify c with
      | error fault =>
          rw [consume_badSymbol _ rest index hc]
          rfl
      | ok s =>
          rcases hs : respond limit goal σ s with ⟨log, move⟩
          cases move with
          | advance τ =>
              rw [consume_advance _ rest index hc hs]
              exact ih ⟨some s, index⟩ τ (index + 1)
          | accept e | refuse cause =>
              rw [consume_stop _ rest index hc hs rfl]
              rfl

/-- A token before a run decides nothing but which token is the last one if the
    run reads none. -/
theorem consume_lookingAt (limit : Nat) (goal : Goal) (current : Option Token) (σ : Stage)
    (cs : List Char) (index : Nat) :
    consume limit goal current σ cs index =
      (consume limit goal none σ cs index).lookingAt current := by
  cases cs with
  | nil => rfl
  | cons c rest =>
      cases hc : Symbol.classify c with
      | error fault =>
          rw [consume_badSymbol _ rest index hc, consume_badSymbol _ rest index hc]
          rfl
      | ok s =>
          rcases hs : respond limit goal σ s with ⟨log, move⟩
          cases move with
          | advance τ =>
              -- From here on the two runs are one, which has a token of its own.
              have hsome := isSome_current_consume limit goal ⟨some s, index⟩ τ rest (index + 1)
              rw [consume_advance _ rest index hc hs, consume_advance _ rest index hc hs,
                Run.lookingAt]
              simp only [Run.after, Option.or_of_isSome hsome]
          | accept e | refuse cause =>
              rw [consume_stop _ rest index hc hs rfl, consume_stop _ rest index hc hs rfl]
              rfl

namespace Parser

/-- A whole parse is that of a fresh parser of the same source. -/
theorem construct_eq_fresh (limit : Nat) (p : Parser) :
    p.construct limit =
      ((ofSource p.reader.source p.reader.style).construct limit).lookingAt p.current := by
  -- The run starts over at the cursor zero, so the current token is all that is left of
  -- before.
  have hrun : p.wholeRun limit =
      ((ofSource p.reader.source p.reader.style).wholeRun limit).lookingAt p.current :=
    consume_lookingAt limit _ p.current _ _ 0
  rw [construct_eq, construct_eq]
  simp only [wholeState, wholeError, hrun]
  rcases (ofSource p.reader.source p.reader.style).wholeRun limit with
    ⟨log, index, current, outcome⟩
  cases outcome with
  | error cause => rfl
  | ok e =>
      -- The tree is as high as that of the fresh parser, so both pass or both fail.
      by_cases hdeep : limit < e.height
      · simp only [Run.lookingAt, if_pos hdeep]
        rfl
      · simp only [Run.lookingAt, if_neg hdeep]
        rfl

end Parser

/-- Two readers are of the same source, in the same layout. Only their
    positions may differ. -/
def Reader.Agrees (r r' : Reader) : Prop := r'.source = r.source ∧ r'.style = r.style

/-- Taking a token only moves the cursor. -/
theorem Reader.exists_index_advance (r : Reader) : ∃ index, r.advance.2 = { r with index } := by
  rw [advance]
  cases r.remaining with
  | nil => exact ⟨r.index, rfl⟩
  | cons c rest =>
      -- A character is passed whether it makes a token or not.
      cases hc : Symbol.classify c with
      | error fault | ok s =>
          simp only [hc]
          exact ⟨r.index + 1, rfl⟩

/-- The source that is there after a request. -/
def ParserRequest.sourceAfter (source : String) : ParserRequest → String
  | load source' => source'
  | construct | advance | closeGroup | expression _ _ | term => source

namespace Parser

/-- A state that differs from another one only in how far the source has been
    read and in which token is being looked at. -/
def MovedFrom (q p : Parser) : Prop :=
  ∃ index current, q = { p with reader := { p.reader with index }, current }

theorem movedFrom_trans {p q r : Parser} (hr : r.MovedFrom q) (hq : q.MovedFrom p) :
    r.MovedFrom p := by
  rcases hq with ⟨_, _, rfl⟩
  rcases hr with ⟨index, current, rfl⟩
  exact ⟨index, current, rfl⟩

theorem agrees_of_movedFrom {p q : Parser} (h : q.MovedFrom p) : p.reader.Agrees q.reader := by
  rcases h with ⟨index, current, rfl⟩
  exact ⟨rfl, rfl⟩

theorem movedFrom_advance (p : Parser) : p.advance.parser.MovedFrom p := by
  rcases p.reader.exists_index_advance with ⟨index, hindex⟩
  rw [advance]
  rcases hstep : p.reader.advance with ⟨answer, reader⟩
  rw [hstep] at hindex
  subst hindex
  -- A failed access has not changed the token, but it has moved the cursor.
  cases answer with
  | error e => exact ⟨index, p.current, rfl⟩
  | ok token => exact ⟨index, some token, rfl⟩

theorem movedFrom_look (p : Parser) : p.look.parser.MovedFrom p := by
  rw [look]
  cases hcurrent : p.current with
  | none => exact movedFrom_advance p
  | some token => exact ⟨p.reader.index, p.current, rfl⟩

theorem movedFrom_closeGroup (p : Parser) : p.closeGroup.parser.MovedFrom p := by
  have hlook := movedFrom_look p
  rw [closeGroup]
  rcases hstep : p.look with ⟨answer, q, log⟩
  rw [hstep] at hlook
  cases answer with
  | error e => exact hlook
  | ok token =>
      -- The token that closes is taken, which moves once more.
      by_cases hclose : token.symbol = some .closeParen
      · simp only [if_pos hclose]
        exact movedFrom_trans (movedFrom_advance q) hlook
      · simp only [if_neg hclose]
        exact hlook

theorem movedFrom_settle (p : Parser) (run : Run) : (p.settle run).parser.MovedFrom p :=
  ⟨run.index, run.current, rfl⟩

/-- A request is a whole parse, or it loads a source, or it does no more than
    move the state. -/
theorem perform_construct_or_load_or_move (limit : Nat) (p : Parser) (request : ParserRequest) :
    request = .construct ∨ (∃ source, request = .load source) ∨
      (p.perform limit request).parser.MovedFrom p ∧
        request.sourceAfter p.reader.source = p.reader.source := by
  cases request with
  | construct => exact Or.inl rfl
  | load source => exact Or.inr (Or.inl ⟨source, rfl⟩)
  | advance => exact Or.inr (Or.inr ⟨movedFrom_advance p, rfl⟩)
  | closeGroup => exact Or.inr (Or.inr ⟨movedFrom_closeGroup p, rfl⟩)
  | expression bound whole | term => exact Or.inr (Or.inr ⟨movedFrom_settle p _, rfl⟩)

/-- A whole parse stays at its source, whether or not it fails. -/
theorem agrees_construct (limit : Nat) (p : Parser) :
    p.reader.Agrees (p.construct limit).parser.reader := by
  cases hanswer : (p.construct limit).answer with
  | error err =>
      rw [parser_of_error hanswer]
      exact ⟨rfl, rfl⟩
  | ok e =>
      rw [parser_of_ok hanswer]
      exact ⟨rfl, rfl⟩

/-- A request does nothing to the layout, and nothing to the source unless it
    is to load one. -/
theorem agrees_perform (limit : Nat) (p : Parser) (request : ParserRequest) :
    (p.perform limit request).parser.reader.source = request.sourceAfter p.reader.source ∧
      (p.perform limit request).parser.reader.style = p.reader.style := by
  rcases perform_construct_or_load_or_move limit p request with
    rfl | ⟨source, rfl⟩ | ⟨hmoved, hsource⟩
  · exact agrees_construct limit p
  · exact ⟨rfl, rfl⟩
  · rw [hsource]
    exact agrees_of_movedFrom hmoved

/-- After a history the source is the one that was loaded last, and the layout
    is the one that it began with. -/
theorem agrees_performAll (limit : Nat) (p : Parser) (requests : List ParserRequest) :
    (p.performAll limit requests).reader.source =
        requests.foldl ParserRequest.sourceAfter p.reader.source ∧
      (p.performAll limit requests).reader.style = p.reader.style := by
  induction requests generalizing p with
  | nil => exact ⟨rfl, rfl⟩
  | cons request rest ih =>
      rcases agrees_perform limit p request with ⟨hsource, hstyle⟩
      rcases ih (p.perform limit request).parser with ⟨ihsource, ihstyle⟩
      rw [hsource] at ihsource
      exact ⟨ihsource, ihstyle.trans hstyle⟩

/-- A whole parse forgets the past. Whatever was asked of a parser, and whether
    or not it failed, a whole parse of the source it holds then answers and
    reports what it does on a fresh parser of that source in the same layout,
    and leaves the same tree, the same fragments, and the same reader. That
    source is the one that was loaded last. Only a token that was being looked
    at can outlast the parse, and does so if a fresh parser reads none. -/
theorem construct_forgets_history (past limit : Nat) (p : Parser)
    (requests : List ParserRequest) :
    ∃ source, source = requests.foldl ParserRequest.sourceAfter p.reader.source ∧
      (p.performAll past requests).reader.source = source ∧
      (((p.performAll past requests).construct limit).answer =
          ((ofSource source p.reader.style).construct limit).answer ∧
        ((p.performAll past requests).construct limit).log =
          ((ofSource source p.reader.style).construct limit).log ∧
        ((p.performAll past requests).construct limit).parser.tree =
          ((ofSource source p.reader.style).construct limit).parser.tree ∧
        ((p.performAll past requests).construct limit).parser.fragments =
          ((ofSource source p.reader.style).construct limit).parser.fragments ∧
        ((p.performAll past requests).construct limit).parser.reader =
          ((ofSource source p.reader.style).construct limit).parser.reader ∧
        ((p.performAll past requests).construct limit).parser.current =
          ((ofSource source p.reader.style).construct limit).parser.current.or
            (p.performAll past requests).current) := by
  rcases agrees_performAll past p requests with ⟨hsource, hstyle⟩
  refine ⟨_, rfl, hsource, ?_⟩
  rw [← hsource, ← hstyle, construct_eq_fresh limit (p.performAll past requests)]
  exact ⟨rfl, rfl, rfl, rfl, rfl, rfl⟩

/-- The token of a source that is gone is still there when the first character
    of the next source stands for nothing. -/
example : (((ofSource "a" .text).performAll 9 [.advance, .load "3"]).construct 9).parser.current =
    some ⟨some (.identifier 'a'), 0⟩ := rfl

end Parser

end BoolCalc
