import BoolCalc.Proofs.Faults
import BoolCalc.Proofs.Tabulation

/-!
# What a Parse Keeps

Nothing of a source is lost, added or moved when it is parsed, except for its
parentheses.

A tree has characters of its own: those of its leaves and its operators, in the
order in which they are written, with nothing to group them. They are the
characters of the source without the parentheses, which is `filter_of_derives`. The
argument is an induction on how the source derives the tree, where every rule that
takes a character away from the source puts it into the tree, and only the rule for
groups does not.

The rest is counting. A printed form derives the same tree, so it has the same
characters as the source, although the parentheses of the two may differ. Among the
characters of a tree there is one exclamation mark for each unary node, and one of
the two other operators for each fragment.

## Main definitions

* `withoutParens`: A text without its parentheses.
* `Expr.word`: The characters of a tree, from left to right.

## Theorems

* `filter_of_derives`: The characters of a sentence are those of its tree.
* `count_word_negation`, `count_word_operators`: How many of them are operators.
* `parse_conserves_source`: All of this for a source that is parsed.
-/

namespace BoolCalc

/-- Whether a character is a parenthesis. -/
def isParen (c : Char) : Bool := c == '(' || c == ')'

/-- A text without its parentheses. -/
def withoutParens (s : String) : String := .ofList (s.toList.filter fun c => !isParen c)

theorem isParen_of_isOperand {c : Char} (hc : isOperand c = true) : isParen c = false := by
  rw [isParen, Bool.or_eq_false_iff, beq_eq_false_iff_ne, beq_eq_false_iff_ne]
  exact ⟨ne_of_isOperand hc rfl, ne_of_isOperand hc rfl⟩

namespace Expr

/-- The characters of a tree in the order in which they are written, without the
    parentheses that group them. -/
def word : Expr → List Char
  | terminal symbol => symbol.toList
  | unary op operand => op.toList ++ operand.word
  | binary op left right => left.word ++ (op.toList ++ right.word)

theorem word_symbol (c : Char) : (symbol c).word = [c] := String.toList_singleton c

theorem word_negation (e : Expr) : e.negation.word = '!' :: e.word := rfl

theorem word_connect (op : BinaryOp) (l r : Expr) :
    (connect op l r).word = l.word ++ op.char :: r.word := by
  rw [connect, word, op.toList_text, List.singleton_append]

end Expr

section Sentences

variable {lvl : Level} {w : List Char} {e : Expr}

/-- The characters of a sentence are those of its tree and parentheses. -/
theorem filter_of_derives (h : Derives lvl w e) : (w.filter fun c => !isParen c) = e.word := by
  induction h with
  | @leaf c hc =>
      rw [Expr.word_symbol, List.filter_cons_of_pos (by rw [isParen_of_isOperand hc]; rfl)]
      rfl
  | negation _ ih =>
      rw [Expr.word_negation, ← ih]
      rfl
  | @group w _ _ ih =>
      -- Both of the characters that are added are dropped again.
      have hout : (('(' :: w) ++ [')']).filter (fun c => !isParen c) =
          w.filter fun c => !isParen c := by
        rw [List.filter_append]
        exact List.append_nil _
      rw [hout]
      exact ih
  | factor _ ih | product _ ih => exact ih
  | conj _ _ ihl ihr | disj _ _ ihl ihr =>
      rw [Expr.word_connect, List.filter_append, ihl, ← ihr]
      rfl

/-- Without its parentheses a sentence is as its tree is printed without them. -/
theorem withoutParens_of_derives {source : String} (h : Derives lvl source.toList e) :
    withoutParens source = withoutParens e.text := by
  have hprinted := derives_text (regular_of_derives h)
  rw [withoutParens, withoutParens, filter_of_derives h, filter_of_derives hprinted]

theorem count_of_derives {c : Char} (h : Derives lvl w e) (hc : isParen c = false) :
    w.count c = e.word.count c := by
  rw [← filter_of_derives h, List.count_filter]
  rw [hc]
  rfl

end Sentences

section Counting

variable {e : Expr}

theorem count_word_symbol {c d : Char} (hc : isOperand c = true) (hd : isOperand d = false) :
    (Expr.symbol c).word.count d = 0 := by
  rw [Expr.word_symbol, List.count_eq_zero, List.mem_singleton]
  exact (ne_of_isOperand hc hd).symm

/-- There is one exclamation mark for each unary node. -/
theorem count_word_negation (h : e.Regular) :
    e.word.count '!' = e.operators.countP fun o => o.1 = .unary := by
  induction h with
  | symbol hc => exact count_word_symbol hc rfl
  | negation _ ih =>
      rw [Expr.word_negation, List.count_cons_self, ih]
      exact (List.countP_cons_of_pos rfl).symm
  | connect op _ _ ihl ihr =>
      have hop : op.char ≠ '!' := by cases op <;> decide
      rw [Expr.word_connect, List.count_append, List.count_cons_of_ne hop, ihl, ihr, Expr.connect,
        Expr.operators, List.countP_append, List.countP_append]
      rfl

/-- There is one of the binary operators for each fragment. -/
theorem count_word_operators (h : e.Regular) :
    e.word.count '*' + e.word.count '+' = e.fragments.length := by
  induction h with
  | symbol hc => rw [count_word_symbol hc rfl, count_word_symbol hc rfl]; rfl
  | negation _ ih =>
      rw [Expr.word_negation, List.count_cons_of_ne (by decide), List.count_cons_of_ne (by decide),
        ih]
      rfl
  | connect op _ _ ihl ihr =>
      rw [Expr.word_connect, List.count_append, List.count_append, Expr.connect,
        Expr.fragments_binary, List.length_append, List.length_append, ← ihl, ← ihr,
        List.length_singleton]
      -- One of the two counts goes up, whichever the operator is.
      cases op with
      | conj =>
          rw [BinaryOp.char, List.count_cons_self, List.count_cons_of_ne (by decide)]
          omega
      | disj =>
          rw [BinaryOp.char, List.count_cons_of_ne (by decide), List.count_cons_self]
          omega

end Counting

/-- Nothing is lost, added or moved when a source is parsed, whatever the parser did
    before. Without their parentheses the source and the printed form of the tree are
    the same. The leaves are the operands of the source in their order. The listed
    variables are the variables of the tree, each where it occurs first, and those of
    the printed form. There are as many unary nodes as exclamation marks, and as many
    fragments as there are binary operators. -/
theorem parse_conserves_source {limit : Nat} {p : Parser} {tree : Expr}
    (h : (p.construct limit).answer = .ok tree) :
    withoutParens p.reader.source = withoutParens tree.text ∧
      tree.leaves = (p.reader.source.toList.filter isOperand).map String.singleton ∧
      collectVariables p.reader.source = tree.vars.eraseDups ∧
      collectVariables p.reader.source = collectVariables tree.text ∧
      (tree.operators.countP fun o => o.1 = .unary) = p.reader.source.toList.count '!' ∧
      (p.construct limit).parser.fragments.length =
        p.reader.source.toList.count '*' + p.reader.source.toList.count '+' := by
  have hsource := (construct_eq_ok_iff (Parser.ample_of_ok h) tree).mp h
  have hregular := regular_of_derives hsource
  have hvars := collectVariables_of_derives hsource
  refine ⟨withoutParens_of_derives hsource, leaves_of_derives hsource, hvars, ?_, ?_, ?_⟩
  · rw [hvars, collectVariables_of_derives (derives_text hregular)]
  · rw [count_of_derives hsource rfl, count_word_negation hregular]
  · rw [fragments_of_construct h, ← count_word_operators hregular, count_of_derives hsource rfl,
      count_of_derives hsource rfl]

/-- Parentheses that are kept, left out and added, a constant and a variable that
    occurs twice. -/
theorem parse_conserves_grouping :
    ∃ tree : Expr, ((Parser.ofSource "(!b)+!(c+b)*0" .text).construct 13).answer = .ok tree ∧
      tree.text = "(!b+(!(c+b)*0))" ∧ withoutParens "(!b)+!(c+b)*0" = withoutParens tree.text ∧
      tree.leaves = ["b", "c", "b", "0"] ∧ tree.vars.eraseDups = ["b", "c"] ∧
      collectVariables tree.text = ["b", "c"] ∧
      (tree.operators.countP fun o => o.1 = .unary) = 2 ∧ tree.fragments.length = 3 := by
  have hparse : ((Parser.ofSource "(!b)+!(c+b)*0" .text).construct 13).answer =
      .ok (.connect .disj (Expr.symbol 'b').negation
        (.connect .conj (Expr.connect .disj (.symbol 'c') (.symbol 'b')).negation
          (.symbol '0'))) := rfl
  rcases parse_conserves_source hparse with
    ⟨hsame, hleaves, hvars, hprinted, hnegations, hfragments⟩
  rw [fragments_of_construct hparse] at hfragments
  exact ⟨_, hparse, rfl, hsame, hleaves, hvars.symm, hprinted.symm, hnegations, hfragments⟩

end BoolCalc
