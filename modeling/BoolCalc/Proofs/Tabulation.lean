import BoolCalc.Proofs.Columns
import BoolCalc.Proofs.Parsing
import BoolCalc.Proofs.Variables

/-!
# When a Function Can Be Tabulated

What adding a function to a table comes to, and why nothing else can happen.

Three stages meet here which have a notion of variable each: a table is given
names, a parser reads tokens, and an evaluation looks up the leaves of a tree.
For a source that is parsed they mean the same characters, so whether it can be
tabulated is decided by the source alone. It can be if it is a sentence and its
identifiers are among the names. If one is not, the leftmost is reported, even
though it is met in the first row only after everything to the left of it has
been evaluated.

A table made for one function takes its names from the source without parsing
it. If there are not too many it has all that the function needs, and only the
parse can fail after that.

## Main definitions

* `missingVariable`: The first identifier of a source that is not a name.

## Theorems

* `derives_of_parse`, `parse_of_style`, `height_le_of_parse`,
  `fragments_of_construct`: What is known of a source that is parsed.
* `find?_vars_of_derives`: The first leaf that is not bound is the first
  identifier that is missing.
* `missingVariable_eq_none_iff_covered`: When none is missing.
* `tabulate_eq_ok_iff`: Which columns a table accepts.
* `tabulate_of_missing`: What is reported otherwise.
* `add_ok_iff_covered`: When a function can be added, and when a table can be
  made for it.
-/

namespace BoolCalc

section Parsed

variable {limit : Nat} {source : String} {style : PointerStyle} {e : Expr}

theorem derives_of_parse (h : parse limit source style = .ok e) : Derives .sum source.toList e :=
  (parse_eq_ok_iff (Parser.ample_of_ok h) e).mp h

/-- The layout of the diagrams has no influence on what is parsed. -/
theorem parse_of_style (h : parse limit source style = .ok e) (style' : PointerStyle) :
    parse limit source style' = .ok e := by
  have hrun : (Parser.ofSource source style').wholeRun limit =
      (Parser.ofSource source style).wholeRun limit := rfl
  rw [parse, Parser.construct_answer_eq_ok_iff] at h ⊢
  rwa [hrun]

/-- What is parsed has a tree that is no higher than the limit. -/
theorem height_le_of_parse (h : parse limit source style = .ok e) : e.height ≤ limit :=
  (Parser.construct_answer_eq_ok_iff.mp h).2

/-- A whole parse that succeeds keeps the fragments of its tree. -/
theorem fragments_of_construct {p : Parser} (h : (p.construct limit).answer = .ok e) :
    (p.construct limit).parser.fragments = e.fragments := by
  rw [Parser.parser_of_ok h]

end Parsed

/-- The first identifier of a source that is not among the names. -/
def missingVariable (names : List String) (source : String) : Option Char :=
  source.toList.find? fun c => isIdentifier c && !names.contains (String.singleton c)

theorem missingVariable_eq_none_iff {names : List String} {source : String} :
    missingVariable names source = none ↔
      ∀ c ∈ source.toList, isIdentifier c = true → String.singleton c ∈ names := by
  simp only [missingVariable, List.find?_eq_none, Bool.and_eq_true, Bool.not_eq_true',
    not_and, Bool.not_eq_false, List.contains_iff_mem]

/-- The first leaf of a sentence's tree that is not bound is the first
    identifier of the sentence that is missing. -/
theorem find?_vars_of_derives {lvl : Level} {source : String} {e : Expr}
    (h : Derives lvl source.toList e) (names : List String) :
    e.vars.find? (fun s => !names.contains s) =
      (missingVariable names source).map String.singleton := by
  rw [vars_of_derives h, List.find?_map, List.find?_filter, missingVariable]
  simp only [Function.comp, Bool.decide_and, Bool.decide_eq_true]

/-- No variable of a sentence is missing exactly if the names cover its tree. -/
theorem missingVariable_eq_none_iff_covered {lvl : Level} {source : String} {e : Expr}
    (h : Derives lvl source.toList e) {names : List String} :
    missingVariable names source = none ↔ ∀ s ∈ e.vars, s ∈ names := by
  rw [← Option.map_eq_none_iff, ← find?_vars_of_derives h, List.find?_eq_none]
  simp only [Bool.not_eq_true', Bool.not_eq_false, List.contains_iff_mem]

namespace TruthTable

variable {limit : Nat} {t : TruthTable} {source : String} {style : PointerStyle}

section Tabulating

theorem tabulate_of_parse_error {err : ParseError} (h : parse limit source style = .error err) :
    t.tabulate limit source style = .error (.parse err) := by
  rw [tabulate, h]

theorem tabulate_of_missing {e : Expr} {c : Char} (h : parse limit source style = .ok e)
    (hc : missingVariable t.names source = some c) :
    t.tabulate limit source style =
      .error (.eval (.undefinedVariable (String.singleton c))) := by
  have hderives := derives_of_parse h
  have hfirst : e.vars.find? (fun s => !t.names.contains s) = some (String.singleton c) := by
    rw [find?_vars_of_derives hderives, hc]
    rfl
  rw [tabulate, h, contexts, inputs]
  exact congrArg (Except.mapError Error.eval)
    (Column.build_of_unbound (regular_of_derives hderives) hfirst source)

theorem tabulate_of_covered {e : Expr} (h : parse limit source style = .ok e)
    (hnone : missingVariable t.names source = none) :
    t.tabulate limit source style = .ok (Column.tabulated t.names source e) := by
  have hderives := derives_of_parse h
  rw [tabulate, h, contexts, inputs]
  exact congrArg (Except.mapError Error.eval) (Column.build_eq_tabulated
    (regular_of_derives hderives) ((missingVariable_eq_none_iff_covered hderives).mp hnone) source)

/-- A table accepts a source exactly if it is parsed and no variable of it is
    missing, and then the column holds the values of the tree. -/
theorem tabulate_eq_ok_iff {c : Column} : t.tabulate limit source style = .ok c ↔
    ∃ e, parse limit source style = .ok e ∧ missingVariable t.names source = none ∧
      c = Column.tabulated t.names source e := by
  constructor
  · intro h
    -- The source is parsed before its variables are looked up.
    cases hparse : parse limit source style with
    | error err =>
        rw [tabulate_of_parse_error hparse] at h
        exact absurd h nofun
    | ok e =>
        cases hmissing : missingVariable t.names source with
        | some c =>
            rw [tabulate_of_missing hparse hmissing] at h
            exact absurd h nofun
        | none =>
            -- No variable is missing, so every row has a value.
            rw [tabulate_of_covered hparse hmissing] at h
            exact ⟨e, rfl, rfl, (Except.ok.inj h).symm⟩
  · rintro ⟨e, hparse, hnone, rfl⟩
    exact tabulate_of_covered hparse hnone

end Tabulating

theorem column_store (t : TruthTable) (expression : String) (c : Column) :
    (t.store expression c).column expression = .ok c := by
  simp only [column, store, OrderedMap.get?_insert_self]

theorem add_eq_ok_iff {t' : TruthTable} : t.add limit source style = .ok t' ↔
    ∃ c, t.tabulate limit source style = .ok c ∧ t' = t.store source c := by
  -- An addition stores the column or passes the error on.
  rw [add]
  cases t.tabulate limit source style with
  | error err => exact iff_of_false nofun fun h => absurd h.choose_spec.1 nofun
  | ok c =>
      constructor
      · intro h
        exact ⟨c, rfl, (Except.ok.inj h).symm⟩
      · rintro ⟨c', hc, rfl⟩
        cases hc
        rfl

/-- Names that are listed for a source and not too many make a table. -/
theorem create_collectVariables (source : String) (maxVariables : Int) :
    create (collectVariables source) maxVariables =
      if maxVariables < (collectVariables source).length then
        .error (.tooManyVariables (collectVariables source).length maxVariables)
      else .ok ⟨collectVariables source, .empty⟩ := by
  rw [create, if_pos (nodup_collectVariables source)]

/-- The names that are listed for a source leave out none of its variables. -/
theorem missingVariable_collectVariables (source : String) :
    missingVariable (collectVariables source) source = none := by
  refine missingVariable_eq_none_iff.mpr fun c hc hname => ?_
  exact (mem_collectVariables source _).mpr ⟨c, hc, isReserved_of_isIdentifier hname, rfl⟩

/-- What a table of one function is: its names are those listed for the source,
    and it holds just the column of the source. -/
theorem ofExpression_eq_ok_iff {maxVariables : Int} {t : TruthTable} :
    ofExpression limit source maxVariables style = .ok t ↔
      ∃ e, parse limit source style = .ok e ∧
        ((collectVariables source).length : Int) ≤ maxVariables ∧
        t = store ⟨collectVariables source, .empty⟩ source
          (Column.tabulated (collectVariables source) source e) := by
  rw [ofExpression, create_collectVariables]
  -- The names are counted before the source is parsed.
  by_cases hmany : maxVariables < (collectVariables source).length
  · rw [if_pos hmany]
    exact iff_of_false nofun fun ⟨_, _, hle, _⟩ => absurd hmany (Int.not_lt.mpr hle)
  · rw [if_neg hmany]
    simp only [add_eq_ok_iff, tabulate_eq_ok_iff]
    constructor
    · rintro ⟨_, ⟨e, hparse, _, rfl⟩, rfl⟩
      exact ⟨e, hparse, Int.not_lt.mp hmany, rfl⟩
    · -- The names are the variables of the source, so none of them is missing.
      rintro ⟨e, hparse, _, rfl⟩
      exact ⟨_, ⟨e, hparse, missingVariable_collectVariables source, rfl⟩, rfl⟩

/-- No variable is undefined in a table made for a function. -/
theorem ofExpression_ne_undefined (limit : Nat) (source : String) (maxVariables : Int)
    (style : PointerStyle) (s : String) :
    ofExpression limit source maxVariables style ≠ .error (.eval (.undefinedVariable s)) := by
  rw [ofExpression, create_collectVariables]
  -- Neither too many names nor a source that is not parsed leaves a variable undefined.
  by_cases hmany : maxVariables < (collectVariables source).length
  · rw [if_pos hmany]
    exact nofun
  · rw [if_neg hmany]
    simp only [add]
    cases hparse : parse limit source style with
    | error err =>
        rw [tabulate_of_parse_error hparse]
        exact nofun
    | ok e =>
        -- All the variables of the source are names of this table.
        rw [tabulate_of_covered (t := ⟨collectVariables source, .empty⟩) hparse
          (missingVariable_collectVariables source)]
        exact nofun

/-- When a function can be tabulated. It can be added to a table exactly if it
    is parsed and each of its variables is a name of the table, and what results
    is the table with the column of its values stored; otherwise the leftmost of
    its variables that is not a name is reported, or what the parse reports. A
    table can be made for a function exactly if it is parsed and has no more
    variables than allowed. It holds the column of the function, and nothing is
    undefined in it. -/
theorem add_ok_iff_covered :
    (∀ (limit : Nat) (t : TruthTable) (source : String) (style : PointerStyle),
      ((∃ t', t.add limit source style = .ok t') ↔
        (∃ e, parse limit source style = .ok e) ∧
          ∀ c ∈ source.toList, isIdentifier c = true → String.singleton c ∈ t.names) ∧
      (∀ t', t.add limit source style = .ok t' →
        ∃ e column, parse limit source style = .ok e ∧
          column = Column.tabulated t.names source e ∧ t' = t.store source column ∧
          t'.column source = .ok column) ∧
      (∀ (e : Expr) (c : Char), parse limit source style = .ok e →
        missingVariable t.names source = some c →
          t.add limit source style =
            .error (.eval (.undefinedVariable (String.singleton c)))) ∧
      ∀ err : ParseError, parse limit source style = .error err →
        t.add limit source style = .error (.parse err)) ∧
    ∀ (limit : Nat) (source : String) (maxVariables : Int) (style : PointerStyle),
      ((∃ t, ofExpression limit source maxVariables style = .ok t) ↔
        (∃ e, parse limit source style = .ok e) ∧
          ((source.toList.filter isIdentifier).toFinset.card : Int) ≤ maxVariables) ∧
      (∀ t, ofExpression limit source maxVariables style = .ok t →
        ∃ e column, parse limit source style = .ok e ∧
          column = Column.tabulated (collectVariables source) source e ∧
          t = store ⟨collectVariables source, .empty⟩ source column ∧
          t.column source = .ok column) ∧
      ∀ s, ofExpression limit source maxVariables style ≠
        .error (.eval (.undefinedVariable s)) := by
  constructor
  · intro limit t source style
    refine ⟨?_, ?_, ?_, ?_⟩
    · -- Success needs the tree and the names, and nothing else.
      simp only [add_eq_ok_iff, tabulate_eq_ok_iff]
      rw [← missingVariable_eq_none_iff]
      constructor
      · rintro ⟨_, _, ⟨e, hparse, hnone, _⟩, _⟩
        exact ⟨⟨e, hparse⟩, hnone⟩
      · rintro ⟨⟨e, hparse⟩, hnone⟩
        exact ⟨_, _, ⟨e, hparse, hnone, rfl⟩, rfl⟩
    · -- What results is the table with the column stored, which is found there.
      intro t' hadd
      rcases add_eq_ok_iff.mp hadd with ⟨column, htabulate, rfl⟩
      rcases tabulate_eq_ok_iff.mp htabulate with ⟨e, hparse, _, hcolumn⟩
      exact ⟨e, column, hparse, hcolumn, rfl, column_store t source column⟩
    · -- The leftmost missing variable, of the source and so of the tree.
      intro e c hparse hmissing
      rw [add, tabulate_of_missing hparse hmissing]
      rfl
    · intro err hparse
      rw [add, tabulate_of_parse_error hparse]
      rfl
  · intro limit source maxVariables style
    refine ⟨?_, ?_, ofExpression_ne_undefined limit source maxVariables style⟩
    · -- The number of names is that of the different identifiers.
      simp only [ofExpression_eq_ok_iff]
      constructor
      · rintro ⟨_, e, hparse, hle, _⟩
        rw [length_collectVariables_of_derives (derives_of_parse hparse)] at hle
        exact ⟨⟨e, hparse⟩, hle⟩
      · rintro ⟨⟨e, hparse⟩, hle⟩
        rw [← length_collectVariables_of_derives (derives_of_parse hparse)] at hle
        exact ⟨_, e, hparse, hle, rfl⟩
    · intro t htable
      rcases ofExpression_eq_ok_iff.mp htable with ⟨e, hparse, _, rfl⟩
      exact ⟨e, _, hparse, rfl, rfl, column_store _ source _⟩

/-- Of two missing variables the left one is reported, also where the left
    operand would decide the value. A table of its own has both of them, and the
    function is zero in each of the four rows. -/
theorem add_missing_variable :
    ∃ e t column, parse 7 "0*(y+b)" .html = .ok e ∧
      missingVariable ["a", "b"] "0*(y+b)" = some 'y' ∧
      add 7 ⟨["a", "b"], .empty⟩ "0*(y+b)" .html =
        .error (.eval (.undefinedVariable (String.singleton 'y'))) ∧
      (∃ err, parse 7 "y+" .text = .error err ∧
        add 7 ⟨["a", "b"], .empty⟩ "y+" .text = .error (.parse err)) ∧
      ofExpression 7 "0*(y+b)" 2 .html = .ok t ∧ t.column "0*(y+b)" = .ok column ∧
      column.values = [.zero, .zero, .zero, .zero] ∧
      ¬∃ t, ofExpression 7 "0*(y+b)" 1 .html = .ok t := by
  rcases add_ok_iff_covered with ⟨hadd, hof⟩
  have hparse : parse 7 "0*(y+b)" .html =
      .ok (.connect .conj (.symbol '0') (.connect .disj (.symbol 'y') (.symbol 'b'))) := rfl
  have hmissing : missingVariable ["a", "b"] "0*(y+b)" = some 'y' := by decide
  have hrefused : parse 7 "y+" .text = .error ⟨.noTerm, "y+", 2, .text⟩ := rfl
  rcases (hof 7 "0*(y+b)" 2 .html).1.mpr ⟨⟨_, hparse⟩, by decide⟩ with ⟨t, ht⟩
  rcases (hof 7 "0*(y+b)" 2 .html).2.1 t ht with ⟨e, column, he, hcolumn, _, hstored⟩
  obtain rfl := Except.ok.inj (hparse.symm.trans he)
  refine ⟨_, t, column, hparse, hmissing, (hadd 7 _ _ _).2.2.1 _ _ hparse hmissing,
    ⟨_, hrefused, (hadd 7 _ _ _).2.2.2 _ hrefused⟩, ht, hstored, ?_, ?_⟩
  · rw [hcolumn]
    rfl
  · intro htable
    exact absurd ((hof 7 "0*(y+b)" 1 .html).1.mp htable).2 (by decide)

end TruthTable

end BoolCalc
