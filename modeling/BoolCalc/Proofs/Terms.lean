import BoolCalc.Proofs.Variables
import BoolCalc.Proofs.Rows
import BoolCalc.Table.Basic

/-!
# What Canonical Terms Denote

The texts that are joined from the terms of rows, as sentences with a value.

Minterms and their sums, and maxterms and their products, are the same up to an
exchange of the two operators and the two bits. Each operator has a bit that
absorbs: a conjunction is zero as soon as one side is, and a disjunction is
one. Everything here is said for an operator and the bit that it absorbs, and
the exchange is `BinaryOp.dual`.

A text that is joined by an operator is built from the left, as the grammar
reads it. So nothing about a whole text has to be known but what is known of
its parts: `Denotes` says that characters are a sentence, and under which
assignments its value is a given bit. A literal has the absorbed bit where the
variable differs from the row, so a term has it where some variable does, and
the other bit just where the names have the values of the row. The terms of
several rows are joined by the other operator, which has its absorbed bit just
where the names have the values of one of the rows.

## Main definitions

* `BinaryOp.absorbing`, `BinaryOp.dual`: What an operator absorbs, and the
  other operator.
* `Denotes`: Characters are a sentence that has a value under some assignments.

## Theorems

* `denotes_joinChars`: Joining by an operator.
* `denotes_literal`, `denotes_term`: The text of a row is about that row.
* `denotes_selectTerms`: The texts of selected rows are about those rows.
-/

namespace BoolCalc

namespace BinaryOp

/-- The bit of one side that decides the value. -/
def absorbing : BinaryOp → Bit
  | conj => .zero
  | disj => .one

/-- The other operator. -/
def dual : BinaryOp → BinaryOp
  | conj => disj
  | disj => conj

theorem apply_eq_absorbing_iff (op : BinaryOp) (x y : Bit) :
    op.apply x y = op.absorbing ↔ x = op.absorbing ∨ y = op.absorbing := by
  cases op with
  | conj | disj =>
      cases x with
      | zero | one =>
          cases y with
          | zero | one => decide

theorem eq_absorbing_iff (op : BinaryOp) (b : Bit) :
    b = op.absorbing ↔ ¬b = op.dual.absorbing := by
  cases op with
  | conj | disj =>
      cases b with
      | zero | one => decide

end BinaryOp

theorem negate_eq_iff (x b : Bit) : negate x = b ↔ x ≠ b := by
  cases x with
  | zero | one =>
      cases b with
      | zero | one => decide

/-- Characters are a sentence over some names, and its value is `b` under just
    the assignments for which `holds`. -/
def Denotes (names : List String) (lvl : Level) (w : List Char) (b : Bit)
    (holds : (String → Bit) → Prop) : Prop :=
  ∃ e, Derives lvl w e ∧ (∀ s ∈ e.vars, s ∈ names) ∧ ∀ σ, e.value σ = b ↔ holds σ

section Building

variable {names : List String} {lvl : Level} {v w : List Char} {b : Bit}
  {P Q : (String → Bit) → Prop}

theorem denotes_lift {loose : Level} (hle : loose.floor ≤ lvl.floor)
    (h : Denotes names lvl w b P) : Denotes names loose w b P := by
  rcases h with ⟨e, hd, hvars, hvalue⟩
  exact ⟨e, derives_lift hle hd, hvars, hvalue⟩

theorem denotes_congr (h : Denotes names lvl w b P) (hiff : ∀ σ, P σ ↔ Q σ) :
    Denotes names lvl w b Q := by
  rcases h with ⟨e, hd, hvars, hvalue⟩
  exact ⟨e, hd, hvars, fun σ => (hvalue σ).trans (hiff σ)⟩

/-- Where the value is one bit is where it is not the other. -/
theorem denotes_dual {op : BinaryOp} (h : Denotes names lvl w op.dual.absorbing P) :
    Denotes names lvl w op.absorbing fun σ => ¬P σ := by
  rcases h with ⟨e, hd, hvars, hvalue⟩
  exact ⟨e, hd, hvars, fun σ => (op.eq_absorbing_iff _).trans (not_congr (hvalue σ))⟩

theorem denotes_ne_nil (h : Denotes names lvl w b P) : w ≠ [] := by
  rintro rfl
  rcases h with ⟨e, hd, _⟩
  exact absurd (height_lt_length hd) (Nat.not_lt_zero _)

theorem denotes_group (h : Denotes names lvl w b P) :
    Denotes names .factor ('(' :: w ++ [')']) b P := by
  rcases h with ⟨e, hd, hvars, hvalue⟩
  exact ⟨e, Derives.group (derives_lift (sum_floor_le lvl) hd), hvars, hvalue⟩

theorem denotes_connect {op : BinaryOp} (hl : Denotes names op.leftLevel v op.absorbing P)
    (hr : Denotes names op.rightLevel w op.absorbing Q) :
    Denotes names op.leftLevel (v ++ op.char :: w) op.absorbing fun σ => P σ ∨ Q σ := by
  rcases hl with ⟨l, hdl, hvarsl, hvaluel⟩
  rcases hr with ⟨r, hdr, hvarsr, hvaluer⟩
  refine ⟨.connect op l r, derives_connect op hdl hdr, ?_, fun σ => ?_⟩
  · -- Every variable belongs to one of the sides.
    intro s hs
    rw [Expr.vars_connect] at hs
    rcases List.mem_append.mp hs with hs | hs
    · exact hvarsl s hs
    · exact hvarsr s hs
  · -- A connection has its absorbing bit exactly if one of the sides has it.
    rw [Expr.value_connect, BinaryOp.apply_eq_absorbing_iff, hvaluel, hvaluer]

variable {ι : Type} {text : ι → List Char} {holds : ι → (String → Bit) → Prop}

/-- Factors joined by an operator have the bit it absorbs where one of them
    does. -/
theorem denotes_joinChars {op : BinaryOp} {items : List ι} (hne : items ≠ [])
    (hitems : ∀ i ∈ items, Denotes names .factor (text i) op.absorbing (holds i)) :
    Denotes names op.leftLevel (Text.joinChars [op.char] (items.map text)) op.absorbing
      fun σ => ∃ i ∈ items, holds i σ := by
  -- The factors go to the left one after another.
  refine Text.joinChars_induction (motive := fun v joined =>
    Denotes names op.leftLevel v op.absorbing fun σ => ∃ i ∈ joined, holds i σ) hne ?_ ?_
  · intro i hi
    have hfirst := denotes_lift (floor_le_factor_floor op.leftLevel) (hitems i hi)
    refine denotes_congr hfirst fun σ => ?_
    simp only [List.mem_singleton, exists_eq_left]
  · intro v joined i hi h
    have hitem := denotes_lift (floor_le_factor_floor op.rightLevel) (hitems i hi)
    rw [List.append_assoc, List.singleton_append]
    refine denotes_congr (denotes_connect h hitem) fun σ => ?_
    simp only [List.mem_append, List.mem_singleton, or_and_right, exists_or, exists_eq_left]

end Building

/-- The terms that are selected by the values of a function are those of the
    rows that the function selects. -/
theorem selectTerms_map {ι : Type} (rows : List ι) (term : ι → String) (f : ι → Bit)
    (selected : Bit) (joiner : BinaryOp) :
    TruthTable.selectTerms (rows.map term) selected joiner (rows.map f) =
      Text.joinWith joiner.text ((rows.filter fun row => f row = selected).map
        fun row => TruthTable.wrapTerm (term row)) := by
  simp only [TruthTable.selectTerms, List.zip_map', List.filter_map, List.map_map]
  rfl

/-- The characters of a term are those of its literals, joined. -/
theorem toList_canonicalTerm (names : List String) (negated : Bit) (op : BinaryOp)
    (row : List Bit) :
    (TruthTable.canonicalTerm names negated op row).toList =
      Text.joinChars [op.char] ((names.zip row).map fun p =>
        (if p.2 = negated then negationText ++ p.1 else p.1).toList) := by
  rw [TruthTable.canonicalTerm, Text.toList_joinWith, op.toList_text,
    ← List.map_uncurry_zip_eq_zipWith, List.map_map]
  rfl

/-- There is a literal in the term of a row if there are names. -/
theorem zip_row_ne_nil {names : List String} (hne : names ≠ []) {row : List Bit}
    (hlen : row.length = names.length) : names.zip row ≠ [] := by
  rw [Ne, List.zip_eq_nil_iff, not_or]
  refine ⟨hne, fun hrow => hne ?_⟩
  rw [hrow] at hlen
  exact List.length_eq_zero_iff.mp hlen.symm

section Texts

variable {names : List String}

theorem value_symbol {c : Char} (hc : isIdentifier c = true) (σ : String → Bit) :
    (Expr.symbol c).value σ = σ (String.singleton c) := by
  have hnone := isNone_ofText?_of_isOperand (isOperand_of_isIdentifier hc)
  rw [hc, Option.isNone_iff_eq_none] at hnone
  simp only [Expr.symbol, Expr.value, hnone, Option.getD_none]

/-- A literal has the absorbed bit where the variable differs from the row. -/
theorem denotes_literal (op : BinaryOp) {c : Char} (hc : isIdentifier c = true)
    (hmem : String.singleton c ∈ names) (b : Bit) :
    Denotes names .factor (if b = op.absorbing then negationText ++ String.singleton c
      else String.singleton c).toList op.absorbing fun σ => σ (String.singleton c) ≠ b := by
  have hleaf : Derives .factor [c] (.symbol c) := Derives.leaf (isOperand_of_isIdentifier hc)
  have hvars : ∀ s ∈ (Expr.symbol c).vars, s ∈ names := by
    intro s hs
    rw [List.mem_singleton.mp (Expr.mem_vars.mp hs).1]
    exact hmem
  by_cases hb : b = op.absorbing
  · rw [if_pos hb, String.toList_append, String.toList_singleton]
    refine ⟨_, Derives.negation hleaf, hvars, fun σ => ?_⟩
    rw [Expr.value_negation, negate_eq_iff, value_symbol hc, hb]
  · rw [if_neg hb, String.toList_singleton]
    refine ⟨_, hleaf, hvars, fun σ => ?_⟩
    -- Here the row has the other bit, so to differ from it is to have this one.
    rw [value_symbol hc, op.eq_absorbing_iff]
    have hdual : b = op.dual.absorbing := not_not.mp (mt (op.eq_absorbing_iff b).mpr hb)
    rw [hdual]

/-- Names have the values of a row if each of them has that of its place. -/
theorem exists_mem_zip_ne_iff {row : List Bit} (hlen : row.length = names.length)
    (σ : String → Bit) : (∃ p ∈ names.zip row, σ p.1 ≠ p.2) ↔ names.map σ ≠ row := by
  -- Two lists of one length are equal if they are so at each place.
  rw [← not_iff_not, not_not, ← List.forall₂_eq_eq_eq, List.forall₂_map_left_iff,
    List.forall₂_iff_zip]
  constructor
  · intro h
    refine ⟨hlen.symm, fun {s b} hmem => ?_⟩
    by_contra hne
    exact h ⟨(s, b), hmem, hne⟩
  · rintro ⟨_, hall⟩ ⟨⟨s, b⟩, hmem, hne⟩
    exact hne (hall hmem)

variable (hnames : ∀ s ∈ names, ∃ c, isIdentifier c = true ∧ s = String.singleton c)
  (hne : names ≠ [])

include hnames hne

/-- The term of a row has the absorbed bit where the names do not have the
    values of the row. -/
theorem denotes_term (op : BinaryOp) {row : List Bit} (hlen : row.length = names.length) :
    Denotes names op.leftLevel
      (TruthTable.canonicalTerm names op.absorbing op row).toList op.absorbing
      fun σ => names.map σ ≠ row := by
  rw [toList_canonicalTerm]
  refine denotes_congr (P := fun σ => ∃ p ∈ names.zip row, σ p.1 ≠ p.2)
    (denotes_joinChars (zip_row_ne_nil hne hlen) ?_) (exists_mem_zip_ne_iff hlen)
  rintro ⟨s, b⟩ hmem
  have hs := (List.of_mem_zip hmem).1
  rcases hnames s hs with ⟨c, hc, rfl⟩
  exact denotes_literal op hc hs b

/-- The other bit is that of the row, and parentheses do not change it. -/
theorem denotes_wrapTerm (op : BinaryOp) {row : List Bit} (hlen : row.length = names.length) :
    Denotes names .factor (TruthTable.wrapTerm
      (TruthTable.canonicalTerm names op.dual.absorbing op.dual row)).toList op.absorbing
      fun σ => names.map σ = row := by
  have hterm := denotes_dual (denotes_term hnames hne op.dual hlen)
  have hnonempty : TruthTable.canonicalTerm names op.dual.absorbing op.dual row ≠ "" :=
    fun hempty => denotes_ne_nil hterm (congrArg String.toList hempty)
  rw [TruthTable.wrapTerm, if_neg hnonempty, String.toList_append, String.toList_append]
  exact denotes_congr (denotes_group hterm) fun σ => not_not

/-- The terms of the rows for which a function has a bit have that bit, when
    they are joined, where the function has it for the values of the names. -/
theorem denotes_selectTerms (op : BinaryOp) (f : List Bit → Bit)
    (hsome : ∃ row, row.length = names.length ∧ f row = op.absorbing) :
    Denotes names op.leftLevel (TruthTable.selectTerms
      ((bitRows names.length).map (TruthTable.canonicalTerm names op.dual.absorbing op.dual))
      op.absorbing op ((bitRows names.length).map f)).toList op.absorbing
      fun σ => f (names.map σ) = op.absorbing := by
  rw [selectTerms_map, Text.toList_joinWith, op.toList_text, List.map_map]
  -- For the values of an assignment to be a row that is selected is for the function to
  -- have the bit there.
  refine denotes_congr (P := fun σ => ∃ row ∈ (bitRows names.length).filter
    fun row => f row = op.absorbing, names.map σ = row) (denotes_joinChars ?_ ?_) fun σ => ?_
  · -- There is a row, so there is a term to be joined.
    rcases hsome with ⟨row, hlen, hrow⟩
    have hmem : row ∈ (bitRows names.length).filter fun row => f row = op.absorbing :=
      List.mem_filter.mpr ⟨mem_bitRows_iff.mpr hlen, decide_eq_true hrow⟩
    exact List.ne_nil_of_mem hmem
  · -- Each term denotes its own row.
    intro row hrow
    exact denotes_wrapTerm hnames hne op (mem_bitRows_iff.mp (List.mem_filter.mp hrow).1)
  · simp only [List.mem_filter, mem_bitRows_iff, decide_eq_true_eq]
    constructor
    · rintro ⟨row, ⟨_, hrow⟩, rfl⟩
      exact hrow
    · intro hrow
      exact ⟨names.map σ, ⟨List.length_map .., hrow⟩, rfl⟩

end Texts

end BoolCalc
