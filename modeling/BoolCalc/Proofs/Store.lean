import BoolCalc.Proofs.Tabulation
import BoolCalc.Table.Session

/-!
# What a Table Holds

The invariant of a table that is filled by requests, some of which fail.

A column is determined by the expression that it stands under and the names of
the table: there is one column that the expression can have, and `IsFor` says
that this is the one. The names never change, so the requests of the past have
no influence on what a column holds, but only on which columns there are. All
that is said here about a column of a table follows from that, and so does
that the order of the requests matters for nothing but the order of the
columns.

`perform_cases` says all that a request can do. The invariant is preserved by
it, and so by every sequence of requests. What the requests leave behind is
described by induction on the sequence from its end, because what the last
request does to the order depends on all that was added before.

## Main definitions

* `Column.IsFor`: A column is that of an expression over some names.
* `Column.Holds`: What this means, said in terms of evaluation.
* `TruthTable.Sound`: Every column is that of the expression it stands under.

## Theorems

* `holds_of_isFor`: The one column of an expression holds what is evaluated.
* `perform_cases`: Everything that a request can do.
* `sound_perform`, `sound_performAll`: The invariant for a request and a
  sequence.
* `keys_performAll`: Which columns there are, and in which order.
* `isFor_of_column`: What is known of a column that is found.
* `column_eq_of_keys`: Sound tables differ only in which columns they have.
* `performAll_columns`: What a table holds after any sequence of requests.
-/

namespace BoolCalc

namespace Column

/-- A column is that of an expression over some names. The layout plays no
    part, so any one stands for all. -/
def IsFor (limit : Nat) (names : List String) (expression : String) (c : Column) : Prop :=
  ∃ e, parse limit expression .html = .ok e ∧ missingVariable names expression = none ∧
    c = tabulated names expression e

/-- A column holds what a parse and evaluations in every row come to. -/
structure Holds (limit : Nat) (names : List String) (expression : String) (c : Column) :
    Prop where
  /-- The column knows the expression it belongs to. -/
  expression_eq : c.expression = expression
  /-- Its tree is the one that the expression is parsed as. -/
  tree_eq : ∀ style, parse limit expression style = .ok c.tree
  /-- Its fragments are those that the parser keeps. -/
  fragments_eq : ∀ style,
    ((Parser.ofSource expression style).construct limit).parser.fragments = c.fragments
  /-- There is a value for each row, to which the tree is evaluated there. -/
  values_eval : List.Forall₂ (fun row v => c.tree.eval (bindRow names row).get? = .ok v)
    (bitRows names.length) c.values
  /-- There are values of the fragments for each row, one for each fragment,
      to which it is evaluated there. -/
  fragmentValues_eval : List.Forall₂ (fun row vs =>
      List.Forall₂ (fun f v => f.eval (bindRow names row).get? = .ok v) c.fragments vs)
    (bitRows names.length) c.fragmentValues

section Uniqueness

variable {limit : Nat} {names : List String} {expression : String} {c c' : Column}

/-- An expression has one column over the names. -/
theorem eq_of_isFor (h : c.IsFor limit names expression) (h' : c'.IsFor limit names expression) :
    c = c' := by
  rcases h with ⟨e, hparse, _, rfl⟩
  rcases h' with ⟨e', hparse', _, rfl⟩
  rw [hparse] at hparse'
  rw [Except.ok.inj hparse']

theorem holds_of_isFor (h : c.IsFor limit names expression) : c.Holds limit names expression := by
  rcases h with ⟨e, hparse, hnone, rfl⟩
  have hregular := regular_of_derives (derives_of_parse hparse)
  have hcover := (missingVariable_eq_none_iff_covered (derives_of_parse hparse)).mp hnone
  rcases build_spec (build_eq_tabulated hregular hcover expression) with
    ⟨_, _, hvalues, hfragments⟩
  rw [List.forall₂_map_left_iff] at hvalues hfragments
  exact ⟨rfl, fun style => parse_of_style hparse style,
    fun style => fragments_of_construct (parse_of_style hparse style), hvalues, hfragments⟩

end Uniqueness

end Column

namespace TruthTable

/-- Every column of a table is that of the expression it stands under. -/
def Sound (limit : Nat) (t : TruthTable) : Prop :=
  ∀ entry ∈ t.functions.entries, entry.2.IsFor limit t.names entry.1

variable {limit : Nat} {t t' : TruthTable}

/-- Everything that a request can do. It fails and leaves the table as it is,
    or the one column of its expression is put in its place. -/
theorem perform_cases (limit : Nat) (t : TruthTable) (a : Addition) :
    (∃ refusal, t.perform limit a = (.error refusal, t)) ∨
      ∃ c, c.IsFor limit t.names a.expression ∧
        t.perform limit a = (.ok c, t.store a.expression c) := by
  -- The style is looked up before the source is tabulated.
  cases hstyle : PointerStyle.ofName? a.styleName with
  | none => exact Or.inl ⟨.unknownStyle a.styleName, by rw [perform, hstyle]⟩
  | some style =>
      cases htab : t.tabulate limit a.expression style with
      | error err => exact Or.inl ⟨.failed err, by simp only [perform, hstyle, htab]⟩
      | ok c =>
          rcases tabulate_eq_ok_iff.mp htab with ⟨e, hparse, hnone, hc⟩
          exact Or.inr ⟨c, ⟨e, parse_of_style hparse .html, hnone, hc⟩,
            by simp only [perform, hstyle, htab]⟩

section Invariant

theorem names_perform (limit : Nat) (t : TruthTable) (a : Addition) :
    (t.perform limit a).2.names = t.names := by
  rcases perform_cases limit t a with ⟨_, h⟩ | ⟨_, _, h⟩
  · rw [h]
  · rw [h]
    rfl

theorem sound_perform (h : t.Sound limit) (a : Addition) : (t.perform limit a).2.Sound limit := by
  rcases perform_cases limit t a with ⟨_, hstep⟩ | ⟨c, hc, hstep⟩
  · rw [hstep]
    exact h
  · rw [hstep]
    intro entry hentry
    rcases OrderedMap.mem_entries_insert hentry with rfl | hold
    · exact hc
    · exact h entry hold

theorem names_performAll (limit : Nat) (t : TruthTable) (additions : List Addition) :
    (t.performAll limit additions).names = t.names := by
  induction additions generalizing t with
  | nil => rfl
  | cons a rest ih => exact (ih _).trans (names_perform limit t a)

theorem sound_performAll (h : t.Sound limit) (additions : List Addition) :
    (t.performAll limit additions).Sound limit := by
  induction additions generalizing t with
  | nil => exact h
  | cons a rest ih => exact ih (sound_perform h a)

end Invariant

section Order

theorem performAll_snoc (limit : Nat) (t : TruthTable) (additions : List Addition)
    (a : Addition) : t.performAll limit (additions ++ [a]) =
      ((t.performAll limit additions).perform limit a).2 :=
  List.foldl_append

/-- What the last request of a sequence adds is added to what was added
    before. -/
theorem added_snoc (limit : Nat) (t : TruthTable) (additions : List Addition) (a : Addition) :
    t.added limit (additions ++ [a]) = t.added limit additions ++
      match ((t.performAll limit additions).perform limit a).1 with
      | .ok _ => [a.expression]
      | .error _ => [] := by
  -- The induction is on the requests, from the first, which may be refused or not.
  induction additions generalizing t with
  | nil =>
      rcases perform_cases limit t a with ⟨_, h⟩ | ⟨_, _, h⟩
      · simp only [List.nil_append, added, performAll, List.foldl_nil, h]
      · simp only [List.nil_append, added, performAll, List.foldl_nil, h]
  | cons b rest ih =>
      rcases perform_cases limit t b with ⟨_, h⟩ | ⟨_, _, h⟩
      · simp only [List.cons_append, added, h, ih, performAll, List.foldl_cons]
      · simp only [List.cons_append, added, h, ih, performAll, List.foldl_cons]

/-- A table that was empty has a column for every expression that was added,
    in the order in which they were added first. -/
theorem keys_performAll (hempty : t.functions = .empty) (additions : List Addition) :
    (t.performAll limit additions).functions.keys = (t.added limit additions).eraseDups := by
  -- Each request comes last in turn, so the induction is from the end.
  induction additions using List.reverseRecOn with
  | nil =>
      rw [performAll, List.foldl_nil, hempty]
      rfl
  | append_singleton additions a ih =>
      rw [performAll_snoc, added_snoc]
      rcases perform_cases limit (t.performAll limit additions) a with ⟨_, h⟩ | ⟨c, _, h⟩
      · rw [h, List.append_nil]
        exact ih
      · -- An expression that has been added before keeps its place.
        have hkey : (t.performAll limit additions).functions.contains a.expression =
            (t.added limit additions).contains a.expression := by
          rw [Bool.eq_iff_iff, OrderedMap.contains_iff_mem_keys, ih, List.mem_eraseDups,
            List.contains_iff_mem]
        rw [h, store, OrderedMap.keys_insert, hkey, ih, eraseDups_snoc]

end Order

theorem isFor_of_column (h : t.Sound limit) {s : String} {c : Column} (hc : t.column s = .ok c) :
    c.IsFor limit t.names s := by
  rw [column] at hc
  -- A column that is found is an entry, and every entry of a sound table is right.
  cases hget : t.functions.get? s with
  | none =>
      rw [hget] at hc
      cases hc
  | some c' =>
      rw [hget] at hc
      rw [← Except.ok.inj hc]
      exact h (s, c') (OrderedMap.mem_entries_of_get? hget)

/-- Two sound tables over the same names that have columns for the same
    expressions have the same column for every expression. -/
theorem column_eq_of_keys (h : t.Sound limit) (h' : t'.Sound limit) (hnames : t'.names = t.names)
    (hkeys : ∀ s, s ∈ t'.functions.keys ↔ s ∈ t.functions.keys) (s : String) :
    t'.column s = t.column s := by
  rw [column, column]
  -- Both tables have the key or neither has it.
  cases hget : t.functions.get? s with
  | none =>
      have hnone : t'.functions.get? s = none := by
        rw [OrderedMap.get?_eq_none_iff, hkeys, ← OrderedMap.get?_eq_none_iff]
        exact hget
      rw [hnone]
  | some c =>
      cases hget' : t'.functions.get? s with
      | none =>
          rw [OrderedMap.get?_eq_none_iff, hkeys, ← OrderedMap.get?_eq_none_iff, hget] at hget'
          cases hget'
      | some c' =>
          -- Both columns are right for the same expression over the same names.
          have hc := h (s, c) (OrderedMap.mem_entries_of_get? hget)
          have hc' := h' (s, c') (OrderedMap.mem_entries_of_get? hget')
          rw [hnames] at hc'
          exact congrArg Except.ok (Column.eq_of_isFor hc' hc)

theorem eq_of_create {names : List String} {maxVariables : Int}
    (h : create names maxVariables = .ok t) : t = ⟨names, .empty⟩ := by
  rw [create] at h
  by_cases hmany : maxVariables < names.length
  · -- More names than allowed are refused, and so are names that repeat.
    rw [if_pos hmany] at h
    cases h
  · rw [if_neg hmany] at h
    by_cases hnodup : names.Nodup
    · rw [if_pos hnodup] at h
      exact (Except.ok.inj h).symm
    · rw [if_neg hnodup] at h
      cases h

/-- What a table holds after any sequence of requests, whether or not they
    fail. There is a column for every expression that was added, in the order
    in which they were added first, and it holds what the expression is parsed
    as and evaluated to in every row. The names are those the table was made
    with, and with them the rows and terms. A request that fails changes
    nothing. Another sequence that adds the same expressions, in whatever
    order, gives each of them the same column. -/
theorem performAll_columns {names : List String} {maxVariables : Int} {start : TruthTable}
    (hstart : create names maxVariables = .ok start) (limit : Nat) (additions : List Addition) :
    (start.performAll limit additions).functions.keys = (start.added limit additions).eraseDups ∧
      (∀ entry ∈ (start.performAll limit additions).functions.entries,
        entry.2.Holds limit names entry.1) ∧
      ((start.performAll limit additions).names = names ∧
        (start.performAll limit additions).inputs = start.inputs ∧
        (start.performAll limit additions).minterms = start.minterms ∧
        (start.performAll limit additions).maxterms = start.maxterms) ∧
      (∀ (a : Addition) (refusal : Refusal),
        ((start.performAll limit additions).perform limit a).1 = .error refusal →
          ((start.performAll limit additions).perform limit a).2 =
            start.performAll limit additions) ∧
      ∀ others : List Addition,
        (∀ s, s ∈ start.added limit others ↔ s ∈ start.added limit additions) →
          ∀ s, (start.performAll limit others).column s =
            (start.performAll limit additions).column s := by
  -- A table that has just been made has no column, so it is sound, and stays so.
  rw [eq_of_create hstart]
  have hempty : (⟨names, .empty⟩ : TruthTable).Sound limit :=
    fun entry hentry => absurd hentry List.not_mem_nil
  have hnames := fun as => names_performAll limit ⟨names, .empty⟩ as
  have hsound := fun as => sound_performAll hempty as
  have hkeys : ∀ as, (performAll limit ⟨names, .empty⟩ as).functions.keys =
      (added limit ⟨names, .empty⟩ as).eraseDups := fun as => keys_performAll rfl as
  refine ⟨hkeys additions, ?_, ?_, ?_, ?_⟩
  · -- Every entry holds what its expression is evaluated to.
    intro entry hentry
    have hentry := hsound additions entry hentry
    rw [hnames] at hentry
    exact Column.holds_of_isFor hentry
  · -- The rows and the terms are made from the names, which no request changes.
    simp only [inputs, minterms, maxterms, hnames, true_and]
  · intro a refusal hrefused
    -- A request that is refused gives the table back.
    rcases perform_cases limit (performAll limit ⟨names, .empty⟩ additions) a with
      ⟨_, h⟩ | ⟨_, _, h⟩
    · rw [h]
    · rw [h] at hrefused
      cases hrefused
  · intro others hsame
    -- Both tables have the same keys, and a column is determined by its key.
    refine column_eq_of_keys (hsound additions) (hsound others)
      ((hnames others).trans (hnames additions).symm) fun s => ?_
    rw [hkeys, hkeys, List.mem_eraseDups, List.mem_eraseDups]
    exact hsame s

/-- A table after requests of which some fail for one reason or another and one
    is a repetition, and after fewer requests in another order. -/
theorem performAll_mixed_requests :
    ∃ start, create ["a", "b"] 12 = .ok start ∧
      (start.performAll 9 [⟨"a*b", "html"⟩, ⟨"a+", "text"⟩, ⟨"!a", "text"⟩, ⟨"x", "html"⟩,
        ⟨"a*b", "text"⟩, ⟨"b", "pdf"⟩]).functions.keys = ["a*b", "!a"] ∧
      (start.performAll 9 [⟨"!a", "html"⟩, ⟨"a*b", "html"⟩]).column "a*b" =
        (start.performAll 9 [⟨"a*b", "html"⟩, ⟨"a+", "text"⟩, ⟨"!a", "text"⟩, ⟨"x", "html"⟩,
          ⟨"a*b", "text"⟩, ⟨"b", "pdf"⟩]).column "a*b" := by
  have hstart : create ["a", "b"] 12 = .ok ⟨["a", "b"], .empty⟩ := rfl
  have hadded : added 9 ⟨["a", "b"], .empty⟩ [⟨"a*b", "html"⟩, ⟨"a+", "text"⟩, ⟨"!a", "text"⟩,
      ⟨"x", "html"⟩, ⟨"a*b", "text"⟩, ⟨"b", "pdf"⟩] = ["a*b", "!a", "a*b"] := rfl
  have hothers : added 9 ⟨["a", "b"], .empty⟩ [⟨"!a", "html"⟩, ⟨"a*b", "html"⟩] =
      ["!a", "a*b"] := rfl
  rcases performAll_columns hstart 9 [⟨"a*b", "html"⟩, ⟨"a+", "text"⟩, ⟨"!a", "text"⟩,
    ⟨"x", "html"⟩, ⟨"a*b", "text"⟩, ⟨"b", "pdf"⟩] with ⟨hkeys, _, _, _, horder⟩
  refine ⟨_, hstart, ?_, horder _ ?_ "a*b"⟩
  · rw [hkeys, hadded]
    decide
  · rw [hadded, hothers]
    -- The same two expressions have been added, in another order and number.
    intro s
    simp only [List.mem_cons, List.not_mem_nil]
    tauto

end TruthTable

end BoolCalc
