import BoolCalc.Proofs.Conservation
import BoolCalc.Proofs.Regrouping

/-!
# Joining Sources

Writing an operator between two sources joins what they mean.

The tree of the joined source is as a rule not the trees of its two parts
joined by the operator. Operators group to the left, so where the second part
has the operator outside its parentheses, the new operator takes the first
operand of the second part for its right side, and the others follow one after
another. `exists_joined` is by recursion along them: the second part is its
last operand and a shorter part before it, which has been joined already. In
each step the operands are regrouped, and this changes no outcome.

A conjunction can be written between two sources only where neither of them is
taken apart by it, that is, where no disjunction is outside of their
parentheses. `Outside` says so of the characters alone. It fits the levels of
the grammar because the parentheses of a sentence match: what stands in front
of an operator of the sentence closes as many as it opens, and what stands
inside a group has opened one more.

## Main definitions

* `Outside`: A character occurs outside the parentheses.

## Theorems

* `count_paren_of_derives`, `count_close_le_of_derives`: Parentheses match.
* `not_outside_of_derives`: A sentence of a level has no looser operators
  outside its parentheses.
* `exists_joined`: Two sentences joined by an operator.
* `parse_joined`: What a joined source is parsed to and what it evaluates to.
-/

namespace BoolCalc

/-- A character occurs outside the parentheses: what stands in front of it
    closes as many of them as it opens. -/
def Outside (c : Char) (w : List Char) : Prop :=
  ∃ before after, w = before ++ c :: after ∧ before.count '(' = before.count ')'

/-- It is enough to look at the places of the text. -/
theorem outside_iff_getElem? (c : Char) (w : List Char) :
    Outside c w ↔ ∃ n < w.length, w[n]? = some c ∧ (w.take n).count '(' = (w.take n).count ')' := by
  constructor
  · -- The place is the length of what stands before.
    rintro ⟨before, after, rfl, hcount⟩
    refine ⟨before.length, ?_, ?_, ?_⟩
    · rw [List.length_append, List.length_cons]
      omega
    · rw [List.getElem?_append_right (Nat.le_refl _), Nat.sub_self, List.getElem?_cons_zero]
    · rw [List.take_left]
      exact hcount
  · -- The text is split at the place.
    rintro ⟨n, hn, hc, hcount⟩
    refine ⟨w.take n, w.drop (n + 1), ?_, hcount⟩
    rw [List.getElem?_eq_getElem hn, Option.some.injEq] at hc
    rw [← hc, List.getElem_cons_drop, List.take_append_drop]

instance (c : Char) (w : List Char) : Decidable (Outside c w) :=
  decidable_of_iff' _ (outside_iff_getElem? c w)

section Parentheses

variable {lvl : Level} {w : List Char} {e : Expr}

/-- A beginning of two texts with a character between them lies in the first, or
    it takes the first and the character in. -/
theorem append_cons_eq_append {v before after : List Char} {c : Char}
    (h : v ++ c :: w = before ++ after) :
    (∃ rest, v = before ++ rest) ∨
      ∃ before', before = v ++ c :: before' ∧ w = before' ++ after := by
  rcases List.append_eq_append_iff.mp h with ⟨rest, rfl, hrest⟩ | ⟨rest, rfl, _⟩
  · cases rest with
    | nil => exact Or.inl ⟨[], by rw [List.append_nil, List.append_nil]⟩
    | cons x before' =>
        cases hrest
        exact Or.inr ⟨before', rfl, rfl⟩
  · exact Or.inl ⟨rest, rfl⟩

/-- An operand is none of the characters with a meaning of their own. -/
theorem count_operand {c d : Char} (hc : isOperand c = true) (hd : isOperand d = false) :
    [c].count d = 0 := by
  rw [← Expr.word_symbol, count_word_symbol hc hd]

/-- A sentence closes as many parentheses as it opens. -/
theorem count_paren_of_derives (h : Derives lvl w e) : w.count '(' = w.count ')' := by
  induction h with
  -- An operand is no bracket.
  | leaf hc => rw [count_operand hc rfl, count_operand hc rfl]
  | negation _ ih =>
      rw [List.count_cons_of_ne (by decide), List.count_cons_of_ne (by decide), ih]
  -- A group adds one of each kind.
  | group _ ih =>
      rw [List.cons_append, List.count_cons_self, List.count_cons_of_ne (by decide),
        List.count_append, List.count_append, ih]
      rfl
  | factor _ ih | product _ ih => exact ih
  -- The operator between the sides is no bracket, and the sides match.
  | conj _ _ ihl ihr | disj _ _ ihl ihr =>
      rw [List.count_append, List.count_append, List.count_cons_of_ne (by decide),
        List.count_cons_of_ne (by decide), ihl, ihr]

/-- Nothing is closed in a sentence that has not been opened before. -/
theorem count_close_le_of_derives (h : Derives lvl w e) {before after : List Char}
    (hw : w = before ++ after) : before.count ')' ≤ before.count '(' := by
  induction h generalizing before after with
  | @leaf c hc =>
      have hnone : before.count ')' ≤ [c].count ')' :=
        hw ▸ (List.sublist_append_left before after).count_le ')'
      rw [count_operand hc rfl] at hnone
      omega
  | negation _ ih =>
      cases before with
      | nil => exact Nat.le_refl _
      | cons x inner =>
          rcases List.cons.inj hw with ⟨rfl, hinner⟩
          rw [List.count_cons_of_ne (by decide), List.count_cons_of_ne (by decide)]
          exact ih hinner
  | group hd ih =>
      cases before with
      | nil => exact Nat.le_refl _
      | cons x inner =>
          rcases List.cons.inj hw with ⟨rfl, hinner⟩
          rw [List.count_cons_self, List.count_cons_of_ne (by decide)]
          -- The closing parenthesis is set off against the opening one.
          rcases append_cons_eq_append hinner with ⟨rest, hrest⟩ | ⟨last, rfl, hlast⟩
          · exact Nat.le_succ_of_le (ih hrest)
          · rw [(List.append_eq_nil_iff.mp hlast.symm).1, List.count_append, List.count_append,
              count_paren_of_derives hd]
            exact Nat.le_refl _
  | factor _ ih | product _ ih => exact ih hw
  | conj hl _ ihl ihr | disj hl _ ihl ihr =>
      rcases append_cons_eq_append hw with ⟨rest, hrest⟩ | ⟨before', rfl, hrest⟩
      · exact ihl hrest
      · rw [List.count_append, List.count_append, List.count_cons_of_ne (by decide),
          List.count_cons_of_ne (by decide), count_paren_of_derives hl]
        exact Nat.add_le_add_left (ihr hrest) _

/-- What is outside the parentheses of two texts with a character between them is
    outside those of one of them, if those of the first match. -/
theorem outside_or_of_append {v : List Char} {c x : Char} (h : Outside c (v ++ x :: w))
    (hx : isParen x = false) (hne : c ≠ x) (hv : v.count '(' = v.count ')') :
    Outside c v ∨ Outside c w := by
  rcases h with ⟨before, after, hsplit, hcount⟩
  rcases append_cons_eq_append hsplit with ⟨rest, rfl⟩ | ⟨before', rfl, rfl⟩
  · -- The place is in the first text, or it would be the joint, which is another
    -- character.
    rw [List.append_assoc] at hsplit
    cases rest with
    | nil => exact absurd (List.cons.inj (List.append_cancel_left hsplit)).1.symm hne
    | cons y rest =>
        cases List.append_cancel_left hsplit
        exact Or.inl ⟨before, rest, rfl, hcount⟩
  · -- The place is in the second text, where the brackets of the first cancel out.
    have hopen : x ≠ '(' := by rintro rfl; exact absurd hx nofun
    have hclose : x ≠ ')' := by rintro rfl; exact absurd hx nofun
    rw [List.count_append, List.count_append, List.count_cons_of_ne hopen,
      List.count_cons_of_ne hclose, hv] at hcount
    exact Or.inr ⟨before', after, rfl, Nat.add_left_cancel hcount⟩

theorem isOperand_char (op : BinaryOp) : isOperand op.char = false := by cases op <;> decide

theorem not_outside_nil (c : Char) : ¬ Outside c [] := by
  rintro ⟨before, after, hsplit, _⟩
  exact List.cons_ne_nil c after (List.append_eq_nil_iff.mp hsplit.symm).2

/-- A sentence of a level has no operator outside its parentheses that binds less
    tightly than the level. -/
theorem not_outside_of_derives (h : Derives lvl w e) {op : BinaryOp}
    (hop : op.precedence < lvl.floor) : ¬ Outside op.char w := by
  induction h with
  | leaf hc =>
      rintro ⟨before, after, hsplit, _⟩
      have hmem : op.char ∈ before ++ op.char :: after := List.mem_append_right _ List.mem_cons_self
      rw [← hsplit, List.mem_singleton] at hmem
      rw [← hmem, isOperand_char] at hc
      exact absurd hc nofun
  | @negation w _ _ ih =>
      intro hout
      have hne : op.char ≠ '!' := by cases op <;> decide
      exact (outside_or_of_append (List.nil_append ('!' :: w) ▸ hout) rfl hne rfl).elim
        (not_outside_nil _) (ih hop)
  | group hd _ =>
      -- What stands in front of a character of a group has opened one parenthesis
      -- more, and the closing one at the end is no operator.
      rintro ⟨before, after, hsplit, hcount⟩
      cases before with
      | nil => cases op <;> exact absurd (List.cons.inj hsplit).1 (by decide)
      | cons x inner =>
          rcases List.cons.inj hsplit with ⟨rfl, hinner⟩
          rw [List.count_cons_self, List.count_cons_of_ne (by decide)] at hcount
          rcases append_cons_eq_append hinner with ⟨rest, hrest⟩ | ⟨last, _, hlast⟩
          · have hle := count_close_le_of_derives hd hrest
            omega
          · exact absurd (List.append_eq_nil_iff.mp hlast.symm).2 (List.cons_ne_nil _ _)
  | factor _ ih => exact ih (hop.trans (by decide))
  | conj hl _ ihl ihr =>
      intro hout
      have hne : op.char ≠ '*' := by
        cases op with
        | conj => exact absurd hop (by decide)
        | disj => decide
      exact (outside_or_of_append hout rfl hne (count_paren_of_derives hl)).elim (ihl hop)
        (ihr (hop.trans (by decide)))
  | product _ _ | disj _ _ _ _ => cases op <;> exact absurd hop (by decide)

end Parentheses

section Joined

variable (op : BinaryOp) {v w : List Char} {l r : Expr}

/-- A sentence of the level of an operator's left side is one of the level of its
    right side, unless it is joined by that operator itself. -/
theorem derives_left_cases (h : Derives op.leftLevel w r) :
    Derives op.rightLevel w r ∨ ∃ v' w' l' r', w = v' ++ op.char :: w' ∧
      r = .connect op l' r' ∧ Derives op.leftLevel v' l' ∧ Derives op.rightLevel w' r' := by
  -- Each operator has its own pair of levels, and the rules of the grammar for them.
  cases op with
  | conj =>
      have hproduct : Derives .product w r := h
      cases hproduct with
      | factor hr => exact Or.inl hr
      | conj hl hr => exact Or.inr ⟨_, _, _, _, rfl, rfl, hl, hr⟩
  | disj =>
      have hsum : Derives .sum w r := h
      cases hsum with
      | product hr => exact Or.inl hr
      | disj hl hr => exact Or.inr ⟨_, _, _, _, rfl, rfl, hl, hr⟩

/-- Two sentences that an operator joins on its own level are one sentence, with
    the outcome of their trees joined. It has these for a tree exactly if the
    second is not taken apart. -/
theorem exists_joined (hl : Derives op.leftLevel v l) (hr : Derives op.leftLevel w r) :
    ∃ e, Derives op.leftLevel (v ++ op.char :: w) e ∧ e.SameOutcome (.connect op l r) ∧
      (e = .connect op l r ↔ ¬ Outside op.char w) := by
  -- The induction is on the length of the second sentence, which loses its last operand.
  induction hlen : w.length using Nat.strong_induction_on generalizing w r with
  | _ n ih =>
      rcases derives_left_cases op hr with hright | ⟨v', w', l', r', rfl, rfl, hl', hr'⟩
      · -- The second sentence is one operand of the operator, so it is taken as a whole.
        have hout : ¬ Outside op.char w := by
          refine not_outside_of_derives hright ?_
          rw [BinaryOp.rightLevel_floor]
          exact Int.lt_succ _
        exact ⟨_, derives_connect op hl hright, Expr.SameOutcome.refl _, iff_of_true rfl hout⟩
      · -- The second sentence without its last operand is joined first.
        have hshort : v'.length < n := by
          rw [← hlen, List.length_append, List.length_cons]
          omega
        rcases ih _ hshort hl' rfl with ⟨e, he, hsame, _⟩
        refine ⟨.connect op e r', ?_, ?_, iff_of_false ?_ ?_⟩
        · have hwhole := derives_connect op he hr'
          rwa [List.append_assoc, List.cons_append] at hwhole
        · exact (hsame.connect_left op r').trans (Expr.sameOutcome_assoc op l l' r')
        · -- A tree is not a part of itself.
          intro heq
          have hheight := congrArg Expr.height (Expr.binary.inj heq).2.2
          simp only [Expr.connect, Expr.height] at hheight
          omega
        · exact fun hout => hout ⟨v', w', rfl, count_paren_of_derives hl'⟩

end Joined

section Sources

variable {s₁ s₂ : String} {e₁ e₂ : Expr}

/-- Two sources that are sentences of the level of an operator's left side, with
    that operator between them. -/
theorem parse_append (op : BinaryOp) (h₁ : Derives op.leftLevel s₁.toList e₁)
    (h₂ : Derives op.leftLevel s₂.toList e₂) {limit : Nat} {style : PointerStyle}
    (hample : (Parser.ofSource (s₁ ++ op.text ++ s₂) style).Ample limit) :
    ∃ e, parse limit (s₁ ++ op.text ++ s₂) style = .ok e ∧ e.EvaluatesAs (.connect op e₁ e₂) ∧
      (e = .connect op e₁ e₂ ↔ ¬ Outside op.char s₂.toList) := by
  rcases exists_joined op h₁ h₂ with ⟨e, he, hsame, htree⟩
  refine ⟨e, (parse_eq_ok_iff hample e).mpr ?_, hsame.evaluatesAs, htree⟩
  rw [String.toList_append, String.toList_append, op.toList_text, List.append_assoc,
    List.singleton_append]
  exact derives_lift (sum_floor_le _) he

/-- A source without a disjunction outside its parentheses is a product. -/
theorem derives_product {limit : Nat} {source : String} {style : PointerStyle} {e : Expr}
    (h : parse limit source style = .ok e) (hout : ¬ Outside '+' source.toList) :
    Derives .product source.toList e := by
  have hsum := (parse_eq_ok_iff (Parser.ample_of_ok h) e).mp h
  rcases derives_left_cases .disj hsum with hproduct | ⟨v, w, l, r, hsplit, _, hl, _⟩
  · exact hproduct
  · exact absurd ⟨v, w, hsplit, count_paren_of_derives hl⟩ hout

/-- Joining the texts of two sources joins what they mean. With a `+` between them
    two accepted sources are accepted, whenever the limit is ample, and the tree
    evaluates in every context as the disjunction of their trees does, to the same
    bit or with the same error. With a `*` between them they are the conjunction
    in the same way if neither has a `+` outside its parentheses. In both cases
    the tree is grouped as the trees of the two sources joined exactly if the
    operator is not outside the parentheses of the second one. -/
theorem parse_joined {limit₁ limit₂ : Nat} {style₁ style₂ : PointerStyle}
    (h₁ : parse limit₁ s₁ style₁ = .ok e₁) (h₂ : parse limit₂ s₂ style₂ = .ok e₂) :
    (∀ (limit : Nat) (style : PointerStyle),
        (Parser.ofSource (s₁ ++ "+" ++ s₂) style).Ample limit →
          ∃ e, parse limit (s₁ ++ "+" ++ s₂) style = .ok e ∧
            e.EvaluatesAs (.connect .disj e₁ e₂) ∧
            (e = .connect .disj e₁ e₂ ↔ ¬ Outside '+' s₂.toList)) ∧
      (¬ Outside '+' s₁.toList → ¬ Outside '+' s₂.toList →
        ∀ (limit : Nat) (style : PointerStyle),
          (Parser.ofSource (s₁ ++ "*" ++ s₂) style).Ample limit →
            ∃ e, parse limit (s₁ ++ "*" ++ s₂) style = .ok e ∧
              e.EvaluatesAs (.connect .conj e₁ e₂) ∧
              (e = .connect .conj e₁ e₂ ↔ ¬ Outside '*' s₂.toList)) := by
  refine ⟨fun limit style hample => ?_, fun hout₁ hout₂ limit style hample => ?_⟩
  · have hsum₁ := (parse_eq_ok_iff (Parser.ample_of_ok h₁) e₁).mp h₁
    have hsum₂ := (parse_eq_ok_iff (Parser.ample_of_ok h₂) e₂).mp h₂
    exact parse_append .disj hsum₁ hsum₂ hample
  · exact parse_append .conj (derives_product h₁ hout₁) (derives_product h₂ hout₂) hample

/-- A negated product in front of a product with a group. Their sum is grouped as
    it is joined and their product is not. Where the second variable of the first
    source is not bound, it is reported for the joined trees, and so it is for the
    joined source. -/
theorem parse_joined_products :
    ∃ (e₁ e₂ e : Expr) (context : Context), parse 9 "!a*b" .text = .ok e₁ ∧
      parse 9 "(b+c)*!d" .html = .ok e₂ ∧ ¬ Outside '+' "!a*b".toList ∧
      ¬ Outside '+' "(b+c)*!d".toList ∧ Outside '*' "(b+c)*!d".toList ∧
      parse 13 ("!a*b" ++ "+" ++ "(b+c)*!d") .text = .ok (.connect .disj e₁ e₂) ∧
      parse 13 ("!a*b" ++ "*" ++ "(b+c)*!d") .text = .ok e ∧ e ≠ .connect .conj e₁ e₂ ∧
      context = .ofList [(.text "a", .scalar (.integer 0)), (.text "c", .scalar (.integer 1))] ∧
      evaluate 3 (.connect .conj e₁ e₂) context = .error (.undefinedVariable "b") ∧
      evaluate 4 e context = .error (.undefinedVariable "b") := by
  -- The facts about the sources are computed, and the theorem gives the rest.
  have h₁ : parse 9 "!a*b" .text =
      .ok (.connect .conj (Expr.symbol 'a').negation (.symbol 'b')) := rfl
  have h₂ : parse 9 "(b+c)*!d" .html =
      .ok (.connect .conj (.connect .disj (.symbol 'b') (.symbol 'c'))
        (Expr.symbol 'd').negation) := rfl
  have hplus₁ : ¬ Outside '+' "!a*b".toList := by decide
  have hplus₂ : ¬ Outside '+' "(b+c)*!d".toList := by decide
  have htimes : Outside '*' "(b+c)*!d".toList := by decide
  rcases parse_joined h₁ h₂ with ⟨hdisj, hconj⟩
  rcases hdisj 13 .text (ample_of_length_le (by decide)) with ⟨_, hsum, _, hgrouped⟩
  rw [hgrouped.mpr hplus₂] at hsum
  rcases hconj hplus₁ hplus₂ 13 .text (ample_of_length_le (by decide)) with
    ⟨e, hproduct, halike, hregrouped⟩
  have hjoined : evaluate 3 (.connect .conj (.connect .conj (Expr.symbol 'a').negation
      (.symbol 'b')) (.connect .conj (.connect .disj (.symbol 'b') (.symbol 'c'))
        (Expr.symbol 'd').negation)) (.ofList [(.text "a", .scalar (.integer 0)),
          (.text "c", .scalar (.integer 1))]) = .error (.undefinedVariable "b") := rfl
  refine ⟨_, _, e, _, h₁, h₂, hplus₁, hplus₂, htimes, hsum, hproduct,
    fun hsame => hregrouped.mp hsame htimes, rfl, hjoined, ?_⟩
  refine (halike.checked 4 3 _ ?_ ?_).trans hjoined
  · -- Neither tree is too high for its limit.
    cases hproduct
    exact evaluate_ne_tooDeep (by decide) _
  · exact evaluate_ne_tooDeep (by decide) _

end Sources

end BoolCalc
