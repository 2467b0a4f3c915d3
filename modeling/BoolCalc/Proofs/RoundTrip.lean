import BoolCalc.Proofs.Parsing
import BoolCalc.Proofs.Regular

/-!
# Printing and Parsing

Parsing undoes printing, and printing gives every tree a source of its own.

A readable tree is printed as a factor that stands for it, so a parse of the
printed form comes back to the tree. The trees of accepted sources are
readable. Printing the tree of a source therefore gives the source a normal
form: one that is accepted with the same tree, and the same for two sources
exactly if their trees are.

## Theorems

* `parse_text`: The printed form of a readable tree is parsed as that tree.
* `readable_of_construct`: The tree of an accepted source is readable.
* `text_eq_iff`: Readable trees are told apart by their printed forms.
* `parse_text_round_trip`: Printing as a normal form of sources.
-/

namespace BoolCalc

/-- The printed form of a readable tree is parsed as that tree. -/
theorem parse_text {limit : Nat} {e : Expr} {style : PointerStyle} (h : e.Readable)
    (hample : (Parser.ofSource e.text style).Ample limit) : parse limit e.text style = .ok e := by
  have hfactor := derives_text ((readable_iff_regular e).mp h)
  exact (parse_eq_ok_iff hample e).mpr (derives_lift (sum_floor_le _) hfactor)

/-- The tree of an accepted source is readable. -/
theorem readable_of_construct {limit : Nat} {p : Parser} {e : Expr}
    (h : (p.construct limit).answer = .ok e) : e.Readable := by
  have hsum := (construct_eq_ok_iff (Parser.ample_of_ok h) e).mp h
  exact (readable_iff_regular e).mpr (regular_of_derives hsum)

/-- Readable trees are told apart by their printed forms, since a sentence has
    one tree. -/
theorem text_eq_iff {e e' : Expr} (h : e.Readable) (h' : e'.Readable) :
    e.text = e'.text ↔ e = e' := by
  constructor
  · intro htext
    have hleft := derives_text ((readable_iff_regular e).mp h)
    have hright := derives_text ((readable_iff_regular e').mp h')
    rw [← htext] at hright
    exact derives_unique hleft hright
  · exact congrArg Expr.text

/-- Printing and parsing. A readable tree is what its printed form is parsed
    as; the tree of every accepted source is readable, and so it comes back
    when it is printed and parsed again; and two accepted sources have the same
    tree exactly if their trees are printed alike. -/
theorem parse_text_round_trip :
    (∀ (limit : Nat) (e : Expr) (style : PointerStyle), e.Readable →
        (Parser.ofSource e.text style).Ample limit → parse limit e.text style = .ok e) ∧
      (∀ (limit : Nat) (source : String) (style : PointerStyle) (e : Expr),
        parse limit source style = .ok e → e.Readable ∧
          ∀ (limit' : Nat) (style' : PointerStyle),
            (Parser.ofSource e.text style').Ample limit' →
              parse limit' e.text style' = .ok e) ∧
      ∀ (limit limit' : Nat) (source source' : String) (style style' : PointerStyle)
        (e e' : Expr), parse limit source style = .ok e → parse limit' source' style' = .ok e' →
          (e.text = e'.text ↔ e = e') := by
  refine ⟨fun limit e style h hample => parse_text h hample, ?_, ?_⟩
  · intro limit source style e h
    have hreadable := readable_of_construct h
    exact ⟨hreadable, fun limit' style' hample => parse_text hreadable hample⟩
  · intro limit limit' source source' style style' e e' h h'
    exact text_eq_iff (readable_of_construct h) (readable_of_construct h')

/-- Superfluous parentheses are gone in the printed form, and those that hold a
    negation off a disjunction stay. -/
theorem parse_text_negated_sum :
    ∃ e e' : Expr, parse 9 "!((a)+0)" .text = .ok e ∧ parse 6 "!a+0" .html = .ok e' ∧
      e.Readable ∧ e.text = "!(a+0)" ∧ (Parser.ofSource e.text .html).Ample 6 ∧
      parse 6 e.text .html = .ok e ∧ (e.text = e'.text ↔ e = e') := by
  rcases parse_text_round_trip with ⟨hprinted, haccepted, hnormal⟩
  have hnegated : parse 9 "!((a)+0)" .text =
      .ok (Expr.connect .disj (.symbol 'a') (.symbol '0')).negation := rfl
  have hjoined : parse 6 "!a+0" .html =
      .ok (.connect .disj (Expr.symbol 'a').negation (.symbol '0')) := rfl
  rcases haccepted _ _ _ _ hnegated with ⟨hreadable, _⟩
  have hample : (Parser.ofSource "!(a+0)" .html).Ample 6 := ample_of_length_le (by decide)
  exact ⟨_, _, hnegated, hjoined, hreadable, rfl, hample, hprinted 6 _ .html hreadable hample,
    hnormal _ _ _ _ _ _ _ _ hnegated hjoined⟩

end BoolCalc
