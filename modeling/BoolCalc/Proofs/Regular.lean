import BoolCalc.Expr.Draft
import BoolCalc.Proofs.Grammar

/-!
# Regular Trees

The trees that the grammar gives to its sentences, and their printed forms.

A tree can be put together around every check, so that not every tree is the
tree of a sentence. Two conditions single out those that are. One is that the
tree passes validation, which is about its operators and says of its symbols
only that they have one character. The other is that these characters are
operands. `readable_iff_regular` says that the two together are the same as
being built from operands by negation and connection, and the induction this
gives is what everything else here is proved by.

The printed form puts every binary node in parentheses, so it is a factor,
whatever the tree is. That is why a printed tree can stand wherever an operand
can, and why nothing about precedence enters.

## Main definitions

* `Expr.leaves`: The symbols of a tree, from left to right.
* `Expr.Readable`: A tree passes validation and its symbols are operands.
* `Expr.Regular`: A tree is built from operands by negation and connection.

## Theorems

* `readable_iff_regular`: The two say the same.
* `regular_of_derives`: The tree of a sentence is regular.
* `derives_text`: A regular tree is printed as a factor that stands for it.
-/

namespace BoolCalc

namespace Expr

/-- The symbols of a tree, from left to right. -/
def leaves : Expr → List String
  | terminal symbol => [symbol]
  | unary _ operand => operand.leaves
  | binary _ left right => left.leaves ++ right.leaves

/-- A tree is one that passes validation, and each of its symbols is an
    operand. -/
def Readable (e : Expr) : Prop :=
  (∃ d : Draft, d.validate = .ok e) ∧
    ∀ s ∈ e.leaves, ∃ c, isOperand c = true ∧ s = String.singleton c

/-- A tree is built from operands by negation and connection. -/
inductive Regular : Expr → Prop
  | symbol {c : Char} (hc : isOperand c = true) : Regular (.symbol c)
  | negation {e : Expr} (h : Regular e) : Regular e.negation
  | connect (op : BinaryOp) {l r : Expr} (hl : Regular l) (hr : Regular r) :
      Regular (.connect op l r)

end Expr

namespace Draft

theorem check_of_validate {d : Draft} {e : Expr} (h : d.validate = .ok e) :
    d.check = .ok (some e) := by
  unfold validate at h
  split at h
  · exact absurd h nofun
  · exact absurd h nofun
  next e' hcheck =>
    rw [hcheck, Except.ok.inj h]

theorem check_terminal_inv {symbol : TextField} {e : Expr}
    (h : (terminal symbol).check = .ok (some e)) : ∃ s, e = .terminal s := by
  unfold check at h
  split at h
  next s _ =>
    cases h
    exact ⟨s, rfl⟩
  · exact absurd h nofun

/-- What passes as a negated node is the negation of what passes. -/
theorem check_unary_inv {op : TextField} {d : Draft} {e : Expr}
    (h : (unary op d).check = .ok (some e)) :
    ∃ operand, d.check = .ok (some operand) ∧ e = operand.negation := by
  rw [check] at h
  cases hd : d.check with
  | error issues =>
      rw [hd] at h
      exact absurd h nofun
  | ok operand? =>
      simp only [hd, bind, Except.bind] at h
      split at h
      next s operand hissues =>
        -- Without issues the operator is the negation.
        have hop := (List.append_eq_nil_iff.mp hissues).1
        by_cases hs : s = negationText
        · cases h
          exact ⟨operand, rfl, by rw [hs]; rfl⟩
        · simp only [operatorIssues, decide_eq_true_eq, if_neg hs] at hop
          exact absurd hop nofun
      · exact absurd h nofun

theorem eq_text_of_ofText? {s : String} {op : BinaryOp} (h : BinaryOp.ofText? s = some op) :
    s = op.text := by
  unfold BinaryOp.ofText? at h
  split at h
  · cases h
    assumption
  · split at h
    · cases h
      assumption
    · exact absurd h nofun

/-- What passes as a binary node connects what passes on either side. -/
theorem check_binary_inv {op : TextField} {dl dr : Draft} {e : Expr}
    (h : (binary op dl dr).check = .ok (some e)) :
    ∃ binop l r, dl.check = .ok (some l) ∧ dr.check = .ok (some r) ∧ e = .connect binop l r := by
  rw [check] at h
  cases hl : dl.check with
  | error issues =>
      rw [hl] at h
      exact absurd h nofun
  | ok left? =>
      cases hr : dr.check with
      | error issues =>
          rw [hl, hr] at h
          exact absurd h nofun
      | ok right? =>
          simp only [hl, hr, bind, Except.bind] at h
          split at h
          next s l r hissues =>
            -- Without issues the operator is one of the algebra.
            have hop := (List.append_eq_nil_iff.mp (List.append_eq_nil_iff.mp hissues).1).1
            cases hs : BinaryOp.ofText? s with
            | none =>
                simp only [operatorIssues, hs, Option.isSome_none] at hop
                exact absurd hop nofun
            | some binop =>
                cases h
                exact ⟨binop, l, r, rfl, rfl, by rw [eq_text_of_ofText? hs]; rfl⟩
          · exact absurd h nofun

end Draft

theorem regular_of_check {d : Draft} {e : Expr} (h : d.check = .ok (some e))
    (hleaves : ∀ s ∈ e.leaves, ∃ c, isOperand c = true ∧ s = String.singleton c) :
    e.Regular := by
  -- The symbols of a node are those of its operands, so the condition on them
  -- is handed down the draft.
  induction d generalizing e with
  | absent => exact absurd h nofun
  | terminal field =>
      rcases Draft.check_terminal_inv h with ⟨s, rfl⟩
      rcases hleaves s (List.mem_singleton_self s) with ⟨c, hc, rfl⟩
      exact Expr.Regular.symbol hc
  | unary op d ih =>
      rcases Draft.check_unary_inv h with ⟨operand, hd, rfl⟩
      exact Expr.Regular.negation (ih hd hleaves)
  | binary op dl dr ihl ihr =>
      rcases Draft.check_binary_inv h with ⟨binop, l, r, hl, hr, rfl⟩
      have hleft := ihl hl (fun s hs => hleaves s (List.mem_append_left _ hs))
      have hright := ihr hr (fun s hs => hleaves s (List.mem_append_right _ hs))
      exact Expr.Regular.connect binop hleft hright

theorem exists_check_of_regular {e : Expr} (h : e.Regular) :
    ∃ d : Draft, d.check = .ok (some e) := by
  -- The draft names what the tree holds.
  induction h with
  | @symbol c _ =>
      have hlength : (String.singleton c).length = 1 := String.length_singleton
      have hissues : Draft.symbolIssues (.given (String.singleton c)) = [] := if_pos hlength
      refine ⟨.terminal (.given (String.singleton c)), ?_⟩
      unfold Draft.check
      rw [hissues]
      rfl
  | negation _ ih =>
      rcases ih with ⟨d, hd⟩
      refine ⟨.unary (.given negationText) d, ?_⟩
      simp only [Draft.check, hd, bind, Except.bind]
      rfl
  | connect op _ _ ihl ihr =>
      rcases ihl with ⟨dl, hl⟩
      rcases ihr with ⟨dr, hr⟩
      refine ⟨.binary (.given op.text) dl dr, ?_⟩
      simp only [Draft.check, hl, hr, bind, Except.bind]
      cases op with
      | conj | disj => rfl

theorem leaves_of_regular {e : Expr} (h : e.Regular) :
    ∀ s ∈ e.leaves, ∃ c, isOperand c = true ∧ s = String.singleton c := by
  -- The leaves of a connection are those of its sides.
  induction h with
  | @symbol c hc =>
      intro s hs
      exact ⟨c, hc, List.mem_singleton.mp hs⟩
  | negation _ ih => exact ih
  | connect op _ _ ihl ihr =>
      intro s hs
      rcases List.mem_append.mp hs with hs | hs
      · exact ihl s hs
      · exact ihr s hs

/-- The trees that pass validation with operands for symbols are those that are
    built from operands by negation and connection. -/
theorem readable_iff_regular (e : Expr) : e.Readable ↔ e.Regular := by
  constructor
  · -- Validation leaves only legal operators, and the leaves are given.
    rintro ⟨⟨d, hd⟩, hleaves⟩
    exact regular_of_check (Draft.check_of_validate hd) hleaves
  · -- A regular tree is its own draft, all of whose fields are given.
    intro h
    rcases exists_check_of_regular h with ⟨d, hd⟩
    refine ⟨⟨d, ?_⟩, leaves_of_regular h⟩
    unfold Draft.validate
    rw [hd]

/-- The tree of a sentence is regular. -/
theorem regular_of_derives {lvl : Level} {w : List Char} {e : Expr} (h : Derives lvl w e) :
    e.Regular := by
  induction h with
  | leaf hc => exact Expr.Regular.symbol hc
  | negation _ ih => exact Expr.Regular.negation ih
  | group _ ih | factor _ ih | product _ ih => exact ih
  | conj _ _ ihl ihr => exact Expr.Regular.connect .conj ihl ihr
  | disj _ _ ihl ihr => exact Expr.Regular.connect .disj ihl ihr

section Text

theorem toList_text_symbol (c : Char) : (Expr.symbol c).text.toList = [c] :=
  String.toList_singleton c

theorem toList_text_negation (e : Expr) : e.negation.text.toList = '!' :: e.text.toList := by
  simp only [Expr.negation, Expr.text, String.toList_append]
  rfl

theorem toList_text_connect (op : BinaryOp) (l r : Expr) :
    (Expr.connect op l r).text.toList =
      '(' :: (l.text.toList ++ op.char :: r.text.toList) ++ [')'] := by
  simp only [Expr.connect, Expr.text, String.toList_append, op.toList_text, List.append_assoc,
    List.cons_append, List.nil_append]
  rfl

/-- A regular tree is printed as a factor that stands for it. -/
theorem derives_text {e : Expr} (h : e.Regular) : Derives .factor e.text.toList e := by
  induction h with
  | @symbol c hc =>
      rw [toList_text_symbol]
      exact Derives.leaf hc
  | negation _ ih =>
      rw [toList_text_negation]
      exact Derives.negation ih
  | connect op _ _ ihl ihr =>
      rw [toList_text_connect]
      -- Each side is a factor, and so it is of the level that its place asks for.
      have hleft := derives_lift (floor_le_factor_floor op.leftLevel) ihl
      have hright := derives_lift (floor_le_factor_floor op.rightLevel) ihr
      exact Derives.group (derives_lift (sum_floor_le _) (derives_connect op hleft hright))

end Text

end BoolCalc
