import BoolCalc.Proofs.Store
import BoolCalc.Proofs.Terms

/-!
# What Canonical Forms Denote

The canonical forms of a function are sources of the same function.

A form is a text that is made from the rows and the values of a column, and to
say that it denotes the function is to say what happens when it is added to the
table: it is parsed, and the column it gets has the values that it was made
from. The one case in which there is nothing to add is that no row was
selected, and then the form is empty.

The names of a table that was made for a function are identifiers and differ
from each other. The first is needed for the terms to be sentences, the second
for the values that a row gives the names to be the row again.

A text stands for one list of values only, because adding it has one outcome.
So a form gives away the values that it was made from, however the literals and
terms in it run together, and two columns of a table have the same form just
when they have the same values.

## Main definitions

* `Restores`: A text stands for some values in a table.

## Theorems

* `nodup_names_of_ofExpression`, `isIdentifier_of_ofExpression`,
  `sound_ofExpression`: What is known of a table that was made for a function.
* `restores_selectTerms`: The joined terms of the selected rows stand for the
  values that they were selected by.
* `canonicalForms_restore`: Both forms of every column stand for its values.
* `eq_of_restores`: A text stands for one list of values only.
* `canonicalForms_eq_iff`: Columns have the same forms if they have the same
  values, and only then.
-/

namespace BoolCalc

theorem Bit.eq_of_eq_iff {x y b : Bit} (h : x = b ↔ y = b) : x = y := by
  cases x with
  | zero | one =>
      cases y with
      | zero | one =>
          cases b with
          | zero | one => simp only [reduceCtorEq, iff_true, iff_false, not_true_eq_false] at h ⊢

namespace TruthTable

/-- A text stands for some values in a table. It is empty if none of them is
    selected; otherwise it can be added, whenever the limit is ample for it,
    and its column has these values. -/
structure Restores (t : TruthTable) (values : List Bit) (selected : Bit) (form : String) :
    Prop where
  /-- Nothing is said exactly if nothing is selected. -/
  empty_iff : form = "" ↔ selected ∉ values
  /-- What is said can be added, with the same values. -/
  add_values : selected ∈ values → ∀ (limit : Nat) (style : PointerStyle),
    (Parser.ofSource form style).Ample limit →
      ∃ t' c, t.add limit form style = .ok t' ∧ t'.column form = .ok c ∧ c.values = values

variable {limit : Nat} {t : TruthTable}

/-- A sentence over the names that has a bit just where a function of the row
    has it gets a column with the values of the function. -/
theorem add_of_denotes (hnodup : t.names.Nodup) {lvl : Level} {form : String} {b : Bit}
    {f : List Bit → Bit} (h : Denotes t.names lvl form.toList b fun σ => f (t.names.map σ) = b)
    {style : PointerStyle} (hample : (Parser.ofSource form style).Ample limit) :
    ∃ t' c, t.add limit form style = .ok t' ∧ t'.column form = .ok c ∧
      c.values = t.inputs.map f := by
  rcases h with ⟨e, hd, hvars, hvalue⟩
  have hsum := derives_lift (sum_floor_le lvl) hd
  have hparse := (parse_eq_ok_iff hample e).mpr hsum
  have htab := tabulate_of_covered hparse ((missingVariable_eq_none_iff_covered hsum).mpr hvars)
  refine ⟨_, _, add_eq_ok_iff.mpr ⟨_, htab, rfl⟩, column_store _ _ _, ?_⟩
  refine List.map_congr_left fun row hrow => ?_
  -- The row is what the names are under the assignment that it describes.
  have hat := hvalue (rowAssignment t.names row)
  simp only [map_rowAssignment hnodup (mem_bitRows_iff.mp hrow)] at hat
  exact Bit.eq_of_eq_iff hat

/-- The joined terms of the rows that a function selects stand for its
    values. -/
theorem restores_selectTerms (hnodup : t.names.Nodup)
    (hnames : ∀ s ∈ t.names, ∃ c, isIdentifier c = true ∧ s = String.singleton c)
    (hne : t.names ≠ []) (op : BinaryOp) (f : List Bit → Bit) :
    t.Restores (t.inputs.map f) op.absorbing (selectTerms
      (t.inputs.map (canonicalTerm t.names op.dual.absorbing op.dual)) op.absorbing op
      (t.inputs.map f)) := by
  -- Either some row is selected, and the terms make a sentence, or none is.
  by_cases hmem : op.absorbing ∈ t.inputs.map f
  · rcases List.mem_map.mp hmem with ⟨row, hrow, hsel⟩
    have hform := denotes_selectTerms hnames hne op f ⟨row, mem_bitRows_iff.mp hrow, hsel⟩
    refine ⟨iff_of_false ?_ (not_not.mpr hmem), fun _ limit style hample => ?_⟩
    · -- A sentence is not empty, so neither is the form.
      exact fun hempty => denotes_ne_nil hform (congrArg String.toList hempty)
    · exact add_of_denotes hnodup hform hample
  · refine ⟨iff_of_true ?_ hmem, fun hsome => absurd hsome hmem⟩
    have hnone : t.inputs.filter (fun row => f row = op.absorbing) = [] := by
      rw [List.filter_eq_nil_iff]
      exact fun row hrow hsel => hmem (List.mem_map.mpr ⟨row, hrow, of_decide_eq_true hsel⟩)
    rw [selectTerms_map, hnone]
    rfl

section Made

variable {source : String} {maxVariables : Int} {style : PointerStyle}
  (h : ofExpression limit source maxVariables style = .ok t)

include h

theorem nodup_names_of_ofExpression : t.names.Nodup := by
  rcases ofExpression_eq_ok_iff.mp h with ⟨_, _, _, rfl⟩
  exact nodup_collectVariables source

theorem isIdentifier_of_ofExpression :
    ∀ s ∈ t.names, ∃ c, isIdentifier c = true ∧ s = String.singleton c := by
  rcases ofExpression_eq_ok_iff.mp h with ⟨e, hparse, _, rfl⟩
  intro s hs
  rcases (mem_collectVariables source s).mp hs with ⟨c, hc, hfree, rfl⟩
  exact ⟨c, isIdentifier_of_derives (derives_of_parse hparse) c hc hfree, rfl⟩

theorem sound_ofExpression : t.Sound limit := by
  rcases ofExpression_eq_ok_iff.mp h with ⟨e, hparse, _, rfl⟩
  intro entry hentry
  rcases OrderedMap.mem_entries_insert hentry with rfl | hold
  · exact ⟨e, parse_of_style hparse .html, missingVariable_collectVariables source, rfl⟩
  · exact absurd hold List.not_mem_nil

end Made

/-- The canonical forms denote the function they were derived from. In a table
    that was made for a function with a variable, whatever was added to it
    since, the minterms of a column stand for its values by the rows where it is
    one, and its maxterms by the rows where it is zero. -/
theorem canonicalForms_restore {source : String} {maxVariables : Int} {style : PointerStyle}
    {start : TruthTable} (hstart : ofExpression limit source maxVariables style = .ok start)
    (hne : start.names ≠ []) (additions : List Addition) {expression : String} {c : Column}
    (hcolumn : (start.performAll limit additions).column expression = .ok c) :
    ∃ minterms maxterms,
      (start.performAll limit additions).mintermsOf expression = .ok minterms ∧
      (start.performAll limit additions).maxtermsOf expression = .ok maxterms ∧
      (start.performAll limit additions).Restores c.values .one minterms ∧
      (start.performAll limit additions).Restores c.values .zero maxterms := by
  -- Nothing else is used of the table than its names and that its columns are sound.
  have hnodup := nodup_names_of_ofExpression hstart
  have hnames := isIdentifier_of_ofExpression hstart
  have hsame := names_performAll limit start additions
  have hsound := sound_performAll (sound_ofExpression hstart) additions
  generalize start.performAll limit additions = t at hcolumn hsame hsound ⊢
  rw [← hsame] at hnodup hnames hne
  rcases isFor_of_column hsound hcolumn with ⟨e, _, _, hc⟩
  -- The column was tabulated, so its values are those of a tree in the rows.
  have hvalues : c.values = t.inputs.map fun row => e.value (rowAssignment t.names row) := by
    rw [hc]
    rfl
  have hminterms : t.mintermsOf expression = .ok (selectTerms t.minterms .one .disj c.values) := by
    rw [mintermsOf, hcolumn]
    rfl
  have hmaxterms : t.maxtermsOf expression = .ok (selectTerms t.maxterms .zero .conj c.values) := by
    rw [maxtermsOf, hcolumn]
    rfl
  refine ⟨_, _, hminterms, hmaxterms, ?_, ?_⟩
  · rw [hvalues]
    exact restores_selectTerms hnodup hnames hne .disj _
  · rw [hvalues]
    exact restores_selectTerms hnodup hnames hne .conj _

/-- A sum is added to the table of a product. It is one in three rows, and its
    minterms can be added under a limit as great as they are long. -/
theorem canonicalForms_of_added_sum :
    ∃ start t c t' c', ofExpression 4 "a*!b" 2 .html = .ok start ∧ start.names ≠ [] ∧
      start.performAll 4 [⟨"a+b", "text"⟩] = t ∧ t.column "a+b" = .ok c ∧
      c.values = [.zero, .one, .one, .one] ∧
      t.mintermsOf "a+b" = .ok "(!a*b)+(a*!b)+(a*b)" ∧ t.maxtermsOf "a+b" = .ok "(a+b)" ∧
      t.add 19 "(!a*b)+(a*!b)+(a*b)" .html = .ok t' ∧
      t'.column "(!a*b)+(a*!b)+(a*b)" = .ok c' ∧ c'.values = c.values := by
  -- The table stays closed until each fact is computed from it once.
  have hstart : ofExpression 4 "a*!b" 2 .html = .ok (store ⟨["a", "b"], .empty⟩ "a*!b"
      (Column.tabulated ["a", "b"] "a*!b"
        (.connect .conj (.symbol 'a') (Expr.symbol 'b').negation))) := rfl
  generalize hs : store ⟨["a", "b"], .empty⟩ "a*!b" _ = start at hstart
  have hne : start.names ≠ [] := by
    rw [← hs]
    exact nofun
  have hcolumn : (start.performAll 4 [⟨"a+b", "text"⟩]).column "a+b" =
      .ok (Column.tabulated ["a", "b"] "a+b" (.connect .disj (.symbol 'a') (.symbol 'b'))) := by
    rw [← hs]
    rfl
  have hmin : (start.performAll 4 [⟨"a+b", "text"⟩]).mintermsOf "a+b" =
      .ok "(!a*b)+(a*!b)+(a*b)" := by
    rw [← hs]
    rfl
  have hmax : (start.performAll 4 [⟨"a+b", "text"⟩]).maxtermsOf "a+b" = .ok "(a+b)" := by
    rw [← hs]
    rfl
  rcases canonicalForms_restore hstart hne [⟨"a+b", "text"⟩] hcolumn with
    ⟨minterms, _, hminterms, _, hrestores, _⟩
  cases hmin.symm.trans hminterms
  rcases hrestores.add_values (by decide) 19 .html (ample_of_length_le (by decide)) with
    ⟨t', c', hadd, hcolumn', hvalues⟩
  exact ⟨start, _, _, t', c', hstart, hne, rfl, hcolumn, rfl, hmin, hmax, hadd, hcolumn', hvalues⟩

section Canonicity

/-- A text stands for one list of values only. -/
theorem eq_of_restores {values values' : List Bit} {selected : Bit} {form : String}
    (h : t.Restores values selected form) (h' : t.Restores values' selected form)
    (hlen : values.length = values'.length) : values = values' := by
  by_cases hmem : selected ∈ values
  · -- The text says something, so it can be added, which gives it one column.
    have hmem' : selected ∈ values' := by
      by_contra hnone
      exact h.empty_iff.mp (h'.empty_iff.mpr hnone) hmem
    have hample : (Parser.ofSource form .html).Ample form.length :=
      ample_of_length_le (Nat.le_refl _)
    rcases h.add_values hmem form.length .html hample with ⟨added, c, hadd, hc, rfl⟩
    rcases h'.add_values hmem' form.length .html hample with ⟨added', c', hadd', hc', rfl⟩
    rw [hadd] at hadd'
    cases hadd'
    rw [hc] at hc'
    cases hc'
    rfl
  · -- The text is empty, and both lists consist of the other bit.
    have hmem' : selected ∉ values' := h'.empty_iff.mp (h.empty_iff.mpr hmem)
    refine List.ext_getElem hlen fun i hi hi' => ?_
    have hother : values[i] ≠ selected := fun heq => hmem (heq ▸ List.getElem_mem hi)
    have hother' : values'[i] ≠ selected := fun heq => hmem' (heq ▸ List.getElem_mem hi')
    exact Bit.eq_of_eq_iff (iff_of_false hother hother')

/-- The joined terms of the selected rows are the same text only for the same
    values. -/
theorem selectTerms_eq_iff (hnodup : t.names.Nodup)
    (hnames : ∀ s ∈ t.names, ∃ c, isIdentifier c = true ∧ s = String.singleton c)
    (hne : t.names ≠ []) (op : BinaryOp) (f g : List Bit → Bit) :
    selectTerms (t.inputs.map (canonicalTerm t.names op.dual.absorbing op.dual)) op.absorbing op
        (t.inputs.map f) =
      selectTerms (t.inputs.map (canonicalTerm t.names op.dual.absorbing op.dual)) op.absorbing op
        (t.inputs.map g) ↔ t.inputs.map f = t.inputs.map g := by
  constructor
  · intro hform
    have hf := restores_selectTerms hnodup hnames hne op f
    have hg := restores_selectTerms hnodup hnames hne op g
    rw [← hform] at hg
    exact eq_of_restores hf hg (by rw [List.length_map, List.length_map])
  · intro hvalues
    rw [hvalues]

/-- The forms of a column are made from its values. -/
theorem forms_of_column {expression : String} {c : Column} (h : t.column expression = .ok c) :
    t.mintermsOf expression = .ok (selectTerms t.minterms .one .disj c.values) ∧
      t.maxtermsOf expression = .ok (selectTerms t.maxterms .zero .conj c.values) := by
  rw [mintermsOf, maxtermsOf, h]
  exact ⟨rfl, rfl⟩

/-- The values of a column are those of a function of the row. -/
theorem exists_values_of_column (h : t.Sound limit) {expression : String} {c : Column}
    (hc : t.column expression = .ok c) : ∃ f : List Bit → Bit, c.values = t.inputs.map f := by
  rcases isFor_of_column h hc with ⟨e, _, _, rfl⟩
  exact ⟨fun row => e.value (rowAssignment t.names row), rfl⟩

end Canonicity

/-- The canonical forms are canonical. In a table that was made for a function
    with a variable, whatever was added to it since, any two columns have the
    same minterms exactly if they have the same values, and so with their
    maxterms. -/
theorem canonicalForms_eq_iff {source : String} {maxVariables : Int} {style : PointerStyle}
    {start : TruthTable} (hstart : ofExpression limit source maxVariables style = .ok start)
    (hne : start.names ≠ []) (additions : List Addition) {expression expression' : String}
    {c c' : Column} (hcolumn : (start.performAll limit additions).column expression = .ok c)
    (hcolumn' : (start.performAll limit additions).column expression' = .ok c') :
    ∃ minterms minterms' maxterms maxterms',
      (start.performAll limit additions).mintermsOf expression = .ok minterms ∧
      (start.performAll limit additions).mintermsOf expression' = .ok minterms' ∧
      (start.performAll limit additions).maxtermsOf expression = .ok maxterms ∧
      (start.performAll limit additions).maxtermsOf expression' = .ok maxterms' ∧
      (minterms = minterms' ↔ c.values = c'.values) ∧
      (maxterms = maxterms' ↔ c.values = c'.values) := by
  have hnodup := nodup_names_of_ofExpression hstart
  have hnames := isIdentifier_of_ofExpression hstart
  have hsame := names_performAll limit start additions
  have hsound := sound_performAll (sound_ofExpression hstart) additions
  generalize start.performAll limit additions = t at hcolumn hcolumn' hsame hsound ⊢
  rw [← hsame] at hnodup hnames hne
  -- Both forms select from the rows by the values alone.
  rcases forms_of_column hcolumn with ⟨hmin, hmax⟩
  rcases forms_of_column hcolumn' with ⟨hmin', hmax'⟩
  rcases exists_values_of_column hsound hcolumn with ⟨f, hf⟩
  rcases exists_values_of_column hsound hcolumn' with ⟨g, hg⟩
  refine ⟨_, _, _, _, hmin, hmin', hmax, hmax', ?_, ?_⟩
  · rw [hf, hg]
    exact selectTerms_eq_iff hnodup hnames hne .disj f g
  · rw [hf, hg]
    exact selectTerms_eq_iff hnodup hnames hne .conj f g

/-- A difference and another way to write it have the same minterms, and those
    of a sum are others. -/
theorem canonicalForms_of_rewritten_difference :
    ∃ start t c c' c'', ofExpression 4 "a*!b" 2 .html = .ok start ∧ start.names ≠ [] ∧
      start.performAll 4 [⟨"!(!a+b)", "text"⟩, ⟨"a+b", "html"⟩] = t ∧
      t.column "a*!b" = .ok c ∧ t.column "!(!a+b)" = .ok c' ∧ t.column "a+b" = .ok c'' ∧
      c.values = c'.values ∧ t.mintermsOf "a*!b" = t.mintermsOf "!(!a+b)" ∧
      c.values ≠ c''.values ∧ t.mintermsOf "a*!b" ≠ t.mintermsOf "a+b" := by
  -- The table stays closed until each fact is computed from it once.
  have hstart : ofExpression 4 "a*!b" 2 .html = .ok (store ⟨["a", "b"], .empty⟩ "a*!b"
      (Column.tabulated ["a", "b"] "a*!b"
        (.connect .conj (.symbol 'a') (Expr.symbol 'b').negation))) := rfl
  generalize hs : store ⟨["a", "b"], .empty⟩ "a*!b" _ = start at hstart
  have hne : start.names ≠ [] := by
    rw [← hs]
    exact nofun
  have hcolumn : (start.performAll 4 [⟨"!(!a+b)", "text"⟩, ⟨"a+b", "html"⟩]).column "a*!b" =
      .ok (Column.tabulated ["a", "b"] "a*!b"
        (.connect .conj (.symbol 'a') (Expr.symbol 'b').negation)) := by
    rw [← hs]
    rfl
  have hcolumn' : (start.performAll 4 [⟨"!(!a+b)", "text"⟩, ⟨"a+b", "html"⟩]).column "!(!a+b)" =
      .ok (Column.tabulated ["a", "b"] "!(!a+b)"
        (Expr.connect .disj (Expr.symbol 'a').negation (.symbol 'b')).negation) := by
    rw [← hs]
    rfl
  have hcolumn'' : (start.performAll 4 [⟨"!(!a+b)", "text"⟩, ⟨"a+b", "html"⟩]).column "a+b" =
      .ok (Column.tabulated ["a", "b"] "a+b" (.connect .disj (.symbol 'a') (.symbol 'b'))) := by
    rw [← hs]
    rfl
  have hsame : (Column.tabulated ["a", "b"] "a*!b"
      (.connect .conj (.symbol 'a') (Expr.symbol 'b').negation)).values =
        (Column.tabulated ["a", "b"] "!(!a+b)"
          (Expr.connect .disj (Expr.symbol 'a').negation (.symbol 'b')).negation).values := by
    decide
  have hother : (Column.tabulated ["a", "b"] "a*!b"
      (.connect .conj (.symbol 'a') (Expr.symbol 'b').negation)).values ≠
        (Column.tabulated ["a", "b"] "a+b"
          (.connect .disj (.symbol 'a') (.symbol 'b'))).values := by
    decide
  -- Both applications name the minterms of the difference, which are the same text.
  rcases canonicalForms_eq_iff hstart hne _ hcolumn hcolumn' with
    ⟨_, _, _, _, hmin, hmin', _, _, hiff, _⟩
  rcases canonicalForms_eq_iff hstart hne _ hcolumn hcolumn'' with
    ⟨_, _, _, _, hmin₁, hmin'', _, _, hiff', _⟩
  cases hmin.symm.trans hmin₁
  refine ⟨start, _, _, _, _, hstart, hne, rfl, hcolumn, hcolumn', hcolumn'', hsame, ?_, hother, ?_⟩
  · rw [hmin, hmin', hiff.mpr hsame]
  · rw [hmin, hmin'']
    exact fun heq => hother (hiff'.mp (Except.ok.inj heq))

end TruthTable

end BoolCalc
