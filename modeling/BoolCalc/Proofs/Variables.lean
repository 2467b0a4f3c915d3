import BoolCalc.Proofs.Meaning
import Mathlib

/-!
# The Variables of a Source

Three answers to the question which variables a source has, and that they are
the same.

The variables of a source can be listed without parsing it, as the characters
that are not reserved. They can be read off its tree, as the leaves that are no
constants. And they can be told by their kind, as the characters that may name
a variable. For an arbitrary source the answers differ: a digit that is no
constant is not reserved and names nothing, and a source that is refused has no
tree. For a sentence they agree, because every character of a sentence is
reserved or an identifier, and because each operand of it is a leaf of its
tree.

## Theorems

* `collectFrom_nil`: What listing comes to.
* `mem_collectVariables`, `nodup_collectVariables`: The listed variables.
* `leaves_of_derives`, `vars_of_derives`: The leaves of a sentence's tree
  are its operands, and the variables its identifiers.
* `collectVariables_of_derives`: The listed variables of a sentence are those of
  its tree, each where it occurs first.
* `length_collectVariables_of_derives`: There are as many of them as there are
  different identifiers.
-/

namespace BoolCalc

section Repetitions

variable {α β : Type} [BEq α] [LawfulBEq α] [BEq β] [LawfulBEq β]

/-- An item at the end of a list is a repetition if it is there before, and else
    it comes last. -/
theorem eraseDups_snoc (xs : List α) (x : α) :
    (xs ++ [x]).eraseDups = if xs.contains x then xs.eraseDups else xs.eraseDups ++ [x] := by
  rw [List.eraseDups_append, List.removeAll]
  -- The item is kept only if the list before it does not have it.
  cases hmem : xs.contains x with
  | true =>
      simp only [List.filter, List.elem_eq_contains, hmem, Bool.not_true, List.eraseDups_nil,
        List.append_nil, if_true]
  | false =>
      simp only [List.filter, List.elem_eq_contains, hmem, Bool.not_false, List.eraseDups_cons,
        List.eraseDups_nil, Bool.false_eq_true, if_false]

theorem nodup_eraseDups (xs : List α) : xs.eraseDups.Nodup := by
  -- From the end, since it is the last item that is or is not a repetition.
  induction xs using List.reverseRecOn with
  | nil => exact List.nodup_nil
  | append_singleton xs x ih =>
      rw [eraseDups_snoc]
      by_cases h : xs.contains x = true
      · rw [if_pos h]
        exact ih
      · rw [if_neg h]
        rw [← List.concat_eq_append]
        refine ih.concat fun hmem => h ?_
        exact List.contains_iff_mem.mpr (List.mem_eraseDups.mp hmem)

/-- What is repeated is the same after an injective renaming. -/
theorem eraseDups_map {f : α → β} (hf : Function.Injective f) (xs : List α) :
    (xs.map f).eraseDups = xs.eraseDups.map f := by
  -- The induction is from the end, where an item is kept or left out.
  induction xs using List.reverseRecOn with
  | nil => rfl
  | append_singleton xs x ih =>
      -- An injective renaming makes no repetition that was not there.
      have hsame : (xs.map f).contains (f x) = xs.contains x := by
        rw [Bool.eq_iff_iff, List.contains_iff_mem, List.contains_iff_mem]
        exact List.mem_map_of_injective hf
      rw [List.map_append, List.map_singleton, eraseDups_snoc, eraseDups_snoc, hsame, ih]
      by_cases h : xs.contains x = true
      · rw [if_pos h, if_pos h]
      · rw [if_neg h, if_neg h, List.map_append, List.map_singleton]

end Repetitions

section Collecting

/-- Collecting goes on where a list without its repetitions stands for the list. -/
theorem collectFrom_eraseDups (xs cs : List Char) :
    collectFrom xs.eraseDups cs = (xs ++ cs.filter fun c => !isReserved c).eraseDups := by
  induction cs generalizing xs with
  | nil => rw [List.filter_nil, List.append_nil, collectFrom]
  | cons c rest ih =>
      rw [collectFrom]
      cases hfree : isReserved c with
      | true =>
          rw [Bool.true_or, if_pos rfl, ih, List.filter_cons_of_neg (by rw [hfree]; decide)]
      | false =>
          -- The character is passed over or appended as a repetition is.
          have hseen : xs.eraseDups.contains c = xs.contains c := by
            rw [Bool.eq_iff_iff, List.contains_iff_mem, List.contains_iff_mem, List.mem_eraseDups]
          have hnext : (if xs.contains c = true then xs.eraseDups else xs.eraseDups ++ [c]) =
              (xs ++ [c]).eraseDups := (eraseDups_snoc xs c).symm
          rw [Bool.false_or, hseen, ← apply_ite (collectFrom · rest), hnext, ih,
            List.filter_cons_of_pos (by rw [hfree]; rfl), List.append_assoc, List.singleton_append]

/-- What is collected are the characters that are not reserved, each where it is
    first met. -/
theorem collectFrom_nil (cs : List Char) :
    collectFrom [] cs = (cs.filter fun c => !isReserved c).eraseDups :=
  collectFrom_eraseDups [] cs

theorem mem_collectVariables (source : String) (s : String) :
    s ∈ collectVariables source ↔
      ∃ c ∈ source.toList, isReserved c = false ∧ s = String.singleton c := by
  simp only [collectVariables, collectFrom_nil, List.mem_map, List.mem_eraseDups, List.mem_filter,
    Bool.not_eq_true']
  constructor
  · rintro ⟨c, ⟨hc, hfree⟩, rfl⟩
    exact ⟨c, hc, hfree, rfl⟩
  · rintro ⟨c, hc, hfree, rfl⟩
    exact ⟨c, ⟨hc, hfree⟩, rfl⟩

theorem singleton_injective : Function.Injective String.singleton :=
  fun _ _ h => String.singleton_inj.mp h

/-- No variable is listed twice, whether or not the source is accepted. -/
theorem nodup_collectVariables (source : String) : (collectVariables source).Nodup := by
  rw [collectVariables, collectFrom_nil]
  exact (nodup_eraseDups _).map singleton_injective

end Collecting

theorem isReserved_of_isIdentifier {c : Char} (h : isIdentifier c = true) :
    isReserved c = false := by
  simp only [isIdentifier, Bool.and_eq_true, Bool.not_eq_true'] at h
  exact h.1.2

theorem isOperand_of_isIdentifier {c : Char} (h : isIdentifier c = true) : isOperand c = true := by
  rw [isOperand, h, Bool.or_true]

/-- An operand that is no constant is an identifier. -/
theorem isNone_ofText?_of_isOperand {c : Char} (h : isOperand c = true) :
    (Bit.ofText? (String.singleton c)).isNone = isIdentifier c := by
  simp only [isOperand, Bool.or_eq_true, decide_eq_true_eq] at h
  rcases h with (rfl | rfl) | h
  · rfl
  · rfl
  · -- The texts of the constants are made of reserved characters.
    have hne : ∀ d, isReserved d = true → String.singleton c ≠ String.singleton d := by
      intro d hd heq
      rw [← String.singleton_inj.mp heq, isReserved_of_isIdentifier h] at hd
      exact absurd hd Bool.false_ne_true
    have hzero : String.singleton c ≠ "0" := hne '0' rfl
    have hone : String.singleton c ≠ "1" := hne '1' rfl
    rw [Bit.ofText?, if_neg hzero, if_neg hone, h]
    rfl

section Sentences

variable {lvl : Level} {w : List Char} {e : Expr}

/-- Every character of a sentence is reserved or an identifier. -/
theorem isIdentifier_of_derives (h : Derives lvl w e) :
    ∀ c ∈ w, isReserved c = false → isIdentifier c = true := by
  induction h with
  | @leaf c hc =>
      intro d hd hfree
      rw [List.mem_singleton.mp hd] at hfree ⊢
      simp only [isOperand, Bool.or_eq_true, decide_eq_true_eq] at hc
      -- The two constants are reserved.
      rcases hc with (rfl | rfl) | hname
      · exact absurd hfree (by decide)
      · exact absurd hfree (by decide)
      · exact hname
  | negation _ ih =>
      intro d hd hfree
      -- The sign of the negation is reserved.
      rcases List.mem_cons.mp hd with rfl | hd
      · exact absurd hfree (by decide)
      · exact ih d hd hfree
  | group _ ih =>
      intro d hd hfree
      -- So are both brackets.
      rcases List.mem_append.mp hd with hd | hd
      · rcases List.mem_cons.mp hd with rfl | hd
        · exact absurd hfree (by decide)
        · exact ih d hd hfree
      · rw [List.mem_singleton.mp hd] at hfree
        exact absurd hfree (by decide)
  | factor _ ih | product _ ih => exact ih
  | conj _ _ ihl ihr | disj _ _ ihl ihr =>
      intro d hd hfree
      rcases List.mem_append.mp hd with hd | hd
      · exact ihl d hd hfree
      · -- So is the operator between the sides.
        rcases List.mem_cons.mp hd with rfl | hd
        · exact absurd hfree (by decide)
        · exact ihr d hd hfree

/-- The leaves of a sentence's tree are its operands, from left to right. -/
theorem leaves_of_derives (h : Derives lvl w e) :
    e.leaves = (w.filter isOperand).map String.singleton := by
  -- The characters that are put around operands are no operands.
  induction h with
  | @leaf c hc => rw [List.filter_cons_of_pos hc]; rfl
  | negation _ ih => exact ih
  | @group w _ _ ih =>
      have hout : (('(' :: w) ++ [')']).filter isOperand = w.filter isOperand := by
        rw [List.filter_append]
        exact List.append_nil _
      rw [hout]
      exact ih
  | factor _ ih | product _ ih => exact ih
  | conj _ _ ihl ihr | disj _ _ ihl ihr =>
      rw [List.filter_append, List.map_append, ← ihl]
      exact congrArg _ ihr

/-- The variables of a sentence's tree are its identifiers, from left to
    right. -/
theorem vars_of_derives (h : Derives lvl w e) :
    e.vars = (w.filter isIdentifier).map String.singleton := by
  rw [Expr.vars, leaves_of_derives h, List.filter_map, List.filter_filter]
  refine congrArg _ (List.filter_congr fun c _ => ?_)
  simp only [Function.comp]
  -- Among the operands the identifiers are those that are no constants.
  by_cases hc : isOperand c = true
  · rw [isNone_ofText?_of_isOperand hc, hc, Bool.and_true]
  · have hname : isIdentifier c = false := by
      rw [← Bool.not_eq_true]
      exact fun hname => hc (isOperand_of_isIdentifier hname)
    rw [hname, Bool.eq_false_iff.mpr hc, Bool.and_false]

/-- What is not reserved in a sentence are its identifiers. -/
theorem filter_free_of_derives (h : Derives lvl w e) :
    (w.filter fun c => !isReserved c) = w.filter isIdentifier := by
  refine List.filter_congr fun c hc => ?_
  rw [Bool.eq_iff_iff, Bool.not_eq_true']
  exact ⟨isIdentifier_of_derives h c hc, isReserved_of_isIdentifier⟩

/-- The listed variables of a sentence are those of its tree, without the
    repetitions. -/
theorem collectVariables_of_derives {source : String} (h : Derives lvl source.toList e) :
    collectVariables source = e.vars.eraseDups := by
  rw [collectVariables, collectFrom_nil, filter_free_of_derives h, vars_of_derives h,
    eraseDups_map singleton_injective]

theorem mem_collectVariables_of_derives {source : String} (h : Derives lvl source.toList e)
    (s : String) : s ∈ collectVariables source ↔ s ∈ e.vars := by
  rw [collectVariables_of_derives h, List.mem_eraseDups]

/-- As many variables are listed for a sentence as it has different
    identifiers. -/
theorem length_collectVariables_of_derives {source : String} (h : Derives lvl source.toList e) :
    (collectVariables source).length = (source.toList.filter isIdentifier).toFinset.card := by
  rw [collectVariables, List.length_map, collectFrom_nil, filter_free_of_derives h,
    ← List.toFinset_card_of_nodup (nodup_eraseDups _)]
  refine congrArg Finset.card (Finset.ext fun c => ?_)
  rw [List.mem_toFinset, List.mem_toFinset, List.mem_eraseDups]

end Sentences

end BoolCalc
