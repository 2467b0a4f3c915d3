import BoolCalc.Proofs.Limits
import BoolCalc.Proofs.Restart

/-!
# What a Parser Keeps

The tree and the fragments of a parser belong to its latest whole parse,
whatever has been asked of it since.

All requests work on the same state, and any of them can fail half-way. But
the tree and the fragments are written by whole parses alone. A whole parse
clears them before it reads anything, so that it does not matter at which
place it fails, and it stores both at once when nothing is left that could
fail. The other requests go through the reader and the token being looked at
and leave the rest of the state as it is.

What holds after a history is therefore told from its end. The last request
is a whole parse, and then it decides, or it is another one, and then it
changes nothing about what was kept before it.

## Main definitions

* `Parser.Keeps`: The result that a parser keeps.
* `Parser.ResultOf`: Two states with the same result.

## Theorems

* `keeps_construct`: A whole parse keeps what it answers, or nothing.
* `resultOf_perform`: Other requests keep what was there.
* `parse_of_construct`: A whole parse finds the tree of the source it is of.
* `performAll_keeps_latest`: What a parser keeps after a history.
-/

namespace BoolCalc

namespace Parser

/-- A parser keeps a tree and the fragments of that tree, or neither. -/
def Keeps (p : Parser) (result : Option Expr) : Prop :=
  p.tree = result ∧ p.fragments = (result.map Expr.fragments).getD []

/-- The result kept in a state is that of an earlier state. -/
def ResultOf (q p : Parser) : Prop := q.tree = p.tree ∧ q.fragments = p.fragments

theorem keeps_of_resultOf {p q : Parser} {result : Option Expr} (hq : q.ResultOf p)
    (hp : p.Keeps result) : q.Keeps result :=
  ⟨hq.1.trans hp.1, hq.2.trans hp.2⟩

theorem keeps_ofSource (source : String) (style : PointerStyle) :
    (ofSource source style).Keeps none :=
  ⟨rfl, rfl⟩

/-- A whole parse keeps the tree it answers with, and no tree if it fails. -/
theorem keeps_construct (limit : Nat) (p : Parser) :
    (p.construct limit).parser.Keeps (p.construct limit).answer.toOption := by
  cases hanswer : (p.construct limit).answer with
  | error err => exact cleared_of_error hanswer
  | ok e =>
      rw [parser_of_ok hanswer]
      exact ⟨rfl, rfl⟩

/-- A request that is no whole parse keeps what was there, whether or not it
    fails. -/
theorem resultOf_perform (limit : Nat) (p : Parser) {request : ParserRequest}
    (h : request ≠ .construct) : (p.perform limit request).parser.ResultOf p := by
  rcases perform_construct_or_load_or_move limit p request with
    hconstruct | ⟨source, rfl⟩ | ⟨⟨index, current, hq⟩, _⟩
  · exact absurd hconstruct h
  · exact ⟨rfl, rfl⟩
  · rw [hq]
    exact ⟨rfl, rfl⟩

/-- A whole parse that succeeds finds the tree that its source has, whatever the
    parser did before and whatever the layout is. -/
theorem parse_of_construct {limit : Nat} {p : Parser} {e : Expr}
    (h : (p.construct limit).answer = .ok e) (style : PointerStyle) :
    parse limit p.reader.source style = .ok e := by
  rw [construct_eq_fresh] at h
  have hfresh : ((ofSource p.reader.source p.reader.style).construct limit).answer = .ok e := h
  -- The run of a whole parse does not look at the layout.
  have hrun := construct_answer_eq_ok_iff.mp hfresh
  exact construct_answer_eq_ok_iff.mpr hrun

theorem performAll_append_singleton (limit : Nat) (p : Parser) (requests : List ParserRequest)
    (request : ParserRequest) :
    p.performAll limit (requests ++ [request]) =
      ((p.performAll limit requests).perform limit request).parser :=
  List.foldl_append

/-- What a parser keeps after a history of requests, each of which may have
    succeeded or failed. If there was no whole parse it keeps nothing. Otherwise
    it keeps what came of the latest one: nothing if that failed, and if it
    succeeded the tree of the source that was held then, which is the source
    loaded last before it, with the fragments of that tree. -/
theorem performAll_keeps_latest (limit : Nat) (source : String) (style : PointerStyle)
    (requests : List ParserRequest) :
    (.construct ∉ requests ∧ ((ofSource source style).performAll limit requests).Keeps none) ∨
      ∃ before after q, requests = before ++ .construct :: after ∧ .construct ∉ after ∧
        q = (ofSource source style).performAll limit before ∧
        q.reader.source = before.foldl ParserRequest.sourceAfter source ∧
        ((∃ err, (q.construct limit).answer = .error err ∧
            ((ofSource source style).performAll limit requests).Keeps none) ∨
          ∃ e, (q.construct limit).answer = .ok e ∧
            (∀ anyStyle, parse limit q.reader.source anyStyle = .ok e) ∧
            ((ofSource source style).performAll limit requests).Keeps (some e)) := by
  induction requests using List.reverseRecOn with
  | nil => exact .inl ⟨List.not_mem_nil, keeps_ofSource source style⟩
  | append_singleton requests request ih =>
      rw [performAll_append_singleton]
      by_cases hrequest : request = .construct
      · -- The last request decides.
        subst hrequest
        refine .inr ⟨requests, [], _, rfl, List.not_mem_nil, rfl,
          (agrees_performAll limit (ofSource source style) requests).1, ?_⟩
        have hkeeps := keeps_construct limit ((ofSource source style).performAll limit requests)
        cases hanswer : (((ofSource source style).performAll limit requests).construct
            limit).answer with
        | error err =>
            rw [hanswer] at hkeeps
            exact .inl ⟨err, rfl, hkeeps⟩
        | ok e =>
            rw [hanswer] at hkeeps
            exact .inr ⟨e, rfl, parse_of_construct hanswer, hkeeps⟩
      · -- It leaves what the history before it has come to.
        have hsame := resultOf_perform limit ((ofSource source style).performAll limit requests)
          hrequest
        rcases ih with ⟨hnone, hkeeps⟩ |
          ⟨before, after, q, rfl, hafter, hq, hsource, hkept⟩
        · refine .inl ⟨?_, keeps_of_resultOf hsame hkeeps⟩
          rw [List.mem_append, List.mem_singleton]
          exact fun h => h.elim hnone fun h => hrequest h.symm
        · refine .inr ⟨before, after ++ [request], q, by rw [List.append_assoc]; rfl, ?_, hq,
            hsource, ?_⟩
          · rw [List.mem_append, List.mem_singleton]
            exact fun h => h.elim hafter fun h => hrequest h.symm
          · rcases hkept with ⟨err, herr, hkeeps⟩ | ⟨e, he, hparse, hkeeps⟩
            · exact .inl ⟨err, herr, keeps_of_resultOf hsame hkeeps⟩
            · exact .inr ⟨e, he, hparse, keeps_of_resultOf hsame hkeeps⟩

/-- A term of another source that is refused leaves the tree, and a whole parse
    of that source that fails on its first character does not. -/
example :
    ((ofSource "!a" .text).performAll 9 [.construct, .load "3", .term]).tree =
        some (Expr.symbol 'a').negation ∧
      ((ofSource "!a" .text).performAll 9 [.construct, .load "3", .construct, .load "!a",
        .advance]).tree = none :=
  ⟨rfl, rfl⟩

end Parser

end BoolCalc
