import BoolCalc.Proofs.Store
import BoolCalc.Proofs.Contexts
import BoolCalc.Proofs.Postorder

/-!
# The Displayed Table

That every cell of a displayed table stands under the header it belongs to.

The headers and the rows of a table are put together separately. The headers are
collected function by function, and the rows are extended function by function, each
time by all cells that the function contributes to them. What decides which fragments
are shown is a list of positions in both cases, which is found by looking for the
fragment that is the function itself.

The two are compared by way of a third list, `Column.shown`, of the expressions that
a function shows, each with its header. The headers of a function are the headers of
the list (`headers_eq_shown`), and its cells in a row are the values of the
expressions (`cells_tabulated`). This is so for each function, and as the rows of all
functions are those of the table it is so for the table.

For the positions it has to be seen that no fragment but the last can be the function,
however often sub-expressions are repeated. The proper sub-expressions of a tree are
lower than the tree, so they differ from it.

## Main definitions

* `Heads`: A header stands for an expression over some names.
* `Column.shown`, `TruthTable.shown`: What is shown, with the headers.

## Theorems

* `parse_of_heads`, `evaluate_of_heads`: What is known of a header.
* `stepIndices_eq_range`: The positions of the fragments that are shown.
* `headers_eq_shown`, `cells_tabulated`: The headers and the cells of a function.
* `rows_eq_map`: The rows of a table.
* `display_aligned`: All of this in one statement.
-/

namespace BoolCalc

/-- A header stands for an expression, and the names of a table cover it. -/
structure Heads (names : List String) (header : String) (e : Expr) : Prop where
  /-- The header is a sentence for the expression. -/
  derives : Derives .sum header.toList e
  /-- The variables of the expression are among the names. -/
  covered : ∀ s ∈ e.vars, s ∈ names

section Heads

variable {names : List String} {header : String} {e : Expr} {limit : Nat}

/-- A header is parsed as the expression that it heads. -/
theorem parse_of_heads (h : Heads names header e) {style : PointerStyle}
    (hample : (Parser.ofSource header style).Ample limit) : parse limit header style = .ok e :=
  (parse_eq_ok_iff hample e).mpr h.derives

/-- What has a header is evaluated to its value in every row, if the names are single
    characters. -/
theorem evaluate_of_heads (h : Heads names header e) (hnames : ∀ name ∈ names, name.length = 1)
    {row : List Bit} (hlen : row.length = names.length) (hheight : e.height ≤ limit) :
    evaluate limit e (.ofBindings (bindRow names row)) =
      .ok (e.value (rowAssignment names row)) := by
  -- A row binds no other keys than the names, and each of these is one character.
  have hkeys : ∀ name ∈ (bindRow names row).keys, ∃ c : Char, name = String.singleton c := by
    intro name hname
    refine length_eq_one_iff.mp (hnames name ?_)
    by_contra hmem
    exact OrderedMap.get?_eq_none_iff.mp ((get?_bindRow_eq_none_iff hlen).mpr hmem) hname
  rw [evaluate, Context.bindings_ofBindings hkeys]
  simp only [Expr.evalWithin_eq_eval _ hheight]
  exact Expr.eval_eq_value (regular_of_derives h.derives)
    fun s hs => get?_bindRow_of_mem hlen (h.covered s hs)

end Heads

namespace Column

section Positions

variable {α : Type}

/-- The positions that are shown are those before the function itself. -/
theorem stepIndices_eq_range (c : Column) :
    c.stepIndices = List.range (c.tree.inner.filter Expr.isBinary).length := by
  have hinner : ((c.tree.inner.filter Expr.isBinary).zipIdx.filter
      fun entry => entry.1 ≠ c.tree) = (c.tree.inner.filter Expr.isBinary).zipIdx := by
    refine List.filter_eq_self.mpr fun entry hentry => decide_eq_true ?_
    exact Expr.ne_of_mem_inner (List.mem_of_mem_filter (List.fst_mem_of_mem_zipIdx hentry))
  -- The tree itself, at whatever position, is the one fragment that is dropped.
  have hwhole : ∀ k, ((([c.tree].filter Expr.isBinary).zipIdx k).filter
      fun entry => entry.1 ≠ c.tree) = [] := by
    refine fun k => List.filter_eq_nil_iff.mpr fun entry hentry hne => of_decide_eq_true hne ?_
    exact List.mem_singleton.mp (List.mem_of_mem_filter (List.fst_mem_of_mem_zipIdx hentry))
  rw [stepIndices, fragments, Expr.fragments_eq_filter, List.filter_append, List.zipIdx_append,
    List.filter_append, hinner, hwhole, List.append_nil, List.zipIdx_map_snd,
    List.range_eq_range']

/-- The last position is left out if the function is binary, and else none is. -/
theorem length_inner_binary (c : Column) : (c.tree.inner.filter Expr.isBinary).length =
    if c.tree.isBinary then c.fragments.length - 1 else c.fragments.length := by
  rw [fragments, Expr.fragments_eq_filter, List.filter_append, List.length_append,
    List.filter_singleton]
  cases c.tree.isBinary with
  | true | false => rfl

theorem itemsAt_range (k : Nat) (items : List α) : itemsAt (List.range k) items = items.take k := by
  induction k with
  | zero => rfl
  | succ k ih =>
      rw [itemsAt] at ih ⊢
      rw [List.range_succ, List.filterMap_append, ih, List.take_add_one]
      cases hk : items[k]? with
      | none | some x =>
          simp only [List.filterMap_cons, hk, List.filterMap_nil, Option.toList]

/-- Of what belongs to the fragments, that of the proper ones is shown. -/
theorem itemsAt_stepIndices (c : Column) (f : Expr → α) :
    itemsAt c.stepIndices (c.fragments.map f) = (c.tree.inner.filter Expr.isBinary).map f := by
  rw [stepIndices_eq_range, itemsAt_range, fragments, Expr.fragments_eq_filter, List.filter_append,
    List.map_append, ← List.length_map f, List.take_left]

end Positions

/-- The expressions that a function shows in a display, each with the header that it
    is shown under. -/
def shown (c : Column) (fragments : Bool) : List (String × Expr) :=
  (if fragments then (c.tree.inner.filter Expr.isBinary).map fun f => (f.text, f) else []) ++
    [(c.expression, c.tree)]

section Shown

variable {limit : Nat} {names : List String} {expression : String} {c : Column}

theorem headers_eq_shown (c : Column) (fragments : Bool) :
    c.headers fragments = (c.shown fragments).map Prod.fst := by
  cases fragments with
  | false => rfl
  | true =>
      rw [headers, shown, if_pos rfl, if_pos rfl, itemsAt_stepIndices, List.map_append,
        List.map_map]
      rfl

/-- In a row the cells of a function are the values of what it shows. -/
theorem cells_tabulated (names : List String) (expression : String) (tree : Expr)
    (fragments : Bool) : (tabulated names expression tree).cells fragments =
      (bitRows names.length).map fun row =>
        ((tabulated names expression tree).shown fragments).map fun x =>
          x.2.value (rowAssignment names row) := by
  cases fragments with
  | false =>
      rw [cells, if_neg Bool.false_ne_true, tabulated, List.map_map]
      rfl
  | true =>
      -- Values and fragment values are maps over the same rows.
      rw [cells, if_pos rfl, tabulated, List.zipWith_map, List.zipWith_self]
      refine List.map_congr_left fun row _ => ?_
      have hitems := (tabulated names expression tree).itemsAt_stepIndices
        fun f => f.value (rowAssignment names row)
      rw [shown, if_pos rfl, List.map_append, List.map_map]
      exact congrArg (· ++ [tree.value (rowAssignment names row)]) hitems

/-- What a function shows is shown under a header of its own. -/
theorem heads_of_shown (h : c.IsFor limit names expression) (fragments : Bool) :
    ∀ x ∈ c.shown fragments, Heads names x.1 x.2 := by
  -- A function that was added has been parsed, and its names cover its variables.
  rcases h with ⟨e, hparse, hnone, rfl⟩
  have hderives := derives_of_parse hparse
  have hcover := (missingVariable_eq_none_iff_covered hderives).mp hnone
  refine List.forall_mem_append.mpr ⟨?_, List.forall_mem_singleton.mpr ⟨hderives, hcover⟩⟩
  -- With the fragments there are their headers too, in front of its own.
  cases fragments with
  | false => exact nofun
  | true =>
      rw [if_pos rfl, List.forall_mem_map]
      intro f hf
      have hfragment : f ∈ e.fragments := by
        rw [Expr.fragments_eq_filter, List.filter_append]
        exact List.mem_append_left _ hf
      -- A fragment of a regular tree is regular, so its text is parsed as the fragment.
      have hregular := Expr.regular_of_fragment (regular_of_derives hderives) hfragment
      exact ⟨derives_lift (sum_floor_le _) (derives_text hregular),
        fun s hs => hcover s (Expr.vars_of_fragment hfragment s hs)⟩

end Shown

end Column

namespace TruthTable

variable {limit : Nat} {t : TruthTable}

/-- The expressions that a table shows after the names, each with its header. -/
def shown (t : TruthTable) (fragments : Bool) : List (String × Expr) :=
  t.functions.values.flatMap fun c => c.shown fragments

theorem headers_eq_append (t : TruthTable) (fragments : Bool) :
    t.headers fragments = t.names ++ (t.shown fragments).map Prod.fst := by
  simp only [headers, shown, Column.headers_eq_shown, List.map_flatMap]

/-- Rows that are extended by the cells of columns one after another end in the cells
    of all of them. -/
theorem foldl_zipWith_cells {ι : Type} {inputs : List ι} {columns : List Column}
    {fragments : Bool} {cell : Column → ι → List Bit}
    (h : ∀ c ∈ columns, c.cells fragments = inputs.map (cell c)) (row : ι → List Bit) :
    columns.foldl (fun rows c => rows.zipWith (· ++ ·) (c.cells fragments)) (inputs.map row) =
      inputs.map fun i => row i ++ columns.flatMap fun c => cell c i := by
  -- What the rows are after some columns is again a map over the inputs.
  induction columns generalizing row with
  | nil => simp only [List.foldl_nil, List.flatMap_nil, List.append_nil]
  | cons c rest ih =>
      rcases List.forall_mem_cons.mp h with ⟨hc, hrest⟩
      rw [List.foldl_cons, hc, List.zipWith_map, List.zipWith_self, ih hrest]
      simp only [List.flatMap_cons, List.append_assoc]

/-- A row of a sound table is the input and the values of all that is shown. -/
theorem rows_eq_map (h : t.Sound limit) (fragments : Bool) :
    t.rows fragments = t.inputs.map fun input =>
      input ++ (t.shown fragments).map fun x => x.2.value (rowAssignment t.names input) := by
  -- The cells of a column are the values of what it shows, row by row.
  have hcells : ∀ c ∈ t.functions.values, c.cells fragments = t.inputs.map fun input =>
      (c.shown fragments).map fun x => x.2.value (rowAssignment t.names input) := by
    intro c hc
    rcases List.mem_map.mp hc with ⟨entry, hentry, rfl⟩
    rcases h entry hentry with ⟨e, _, _, htabulated⟩
    rw [htabulated]
    exact Column.cells_tabulated _ _ _ _
  -- The columns are added to the right of the rows one after another.
  have hfold := foldl_zipWith_cells hcells id
  rw [List.map_id] at hfold
  rw [rows, hfold]
  simp only [shown, List.map_flatMap, id]

theorem heads_of_shown (h : t.Sound limit) (fragments : Bool) :
    ∀ x ∈ t.shown fragments, Heads t.names x.1 x.2 := by
  intro x hx
  rcases List.mem_flatMap.mp hx with ⟨c, hc, hshown⟩
  rcases List.mem_map.mp hc with ⟨entry, hentry, rfl⟩
  exact Column.heads_of_shown (h entry hentry) fragments x hshown

/-- The headers and the rows of a displayed table belong together, for every table
    whose names are single characters, after any requests, with the fragments and
    without them.

    There is one row for each input, and it has as many cells as there are headers.
    It begins with the input under the names. Every other header is parsed as some
    expression, to whose value in the context of the row the cell below it is
    evaluated. These headers are those of the functions in their order, each with the
    printed forms of its proper binary sub-expressions before it in post-order if
    fragments are asked for. So the positions of the steps leave out the last one if a
    function is binary, and otherwise none. -/
theorem display_aligned {names : List String} {maxVariables : Int} {start t : TruthTable}
    {additions : List Addition} (hstart : create names maxVariables = .ok start)
    (hnames : ∀ name ∈ names, name.length = 1) (ht : start.performAll limit additions = t)
    (fragments : Bool) :
    (∃ others, t.headers fragments = names ++ others ∧
      (others = t.functions.values.flatMap fun c =>
        (if fragments then (c.tree.inner.filter Expr.isBinary).map Expr.text else []) ++
          [c.expression]) ∧
      List.Forall₂ (fun input row => row.length = (t.headers fragments).length ∧
          input.length = names.length ∧ ∃ cells, row = input ++ cells ∧
            List.Forall₂ (fun header cell => ∃ e,
                (∀ (limit' : Nat) (style : PointerStyle),
                  (Parser.ofSource header style).Ample limit' →
                    parse limit' header style = .ok e) ∧
                ∀ limit' : Nat, e.height ≤ limit' →
                  evaluate limit' e (.ofBindings (bindRow names input)) = .ok cell)
              others cells)
        t.inputs (t.rows fragments)) ∧
      ∀ c ∈ t.functions.values, (∀ style, parse limit c.expression style = .ok c.tree) ∧
        c.stepIndices =
          List.range (if c.tree.isBinary then c.fragments.length - 1 else c.fragments.length) := by
  -- The table has come about by requests, so it is sound and its names are the first
  -- ones.
  have hsound : t.Sound limit := by
    rw [← ht, eq_of_create hstart]
    exact sound_performAll (fun entry hentry => absurd hentry List.not_mem_nil) additions
  have htnames : t.names = names := by
    rw [← ht, names_performAll, eq_of_create hstart]
  refine ⟨⟨(t.shown fragments).map Prod.fst, ?_, ?_, ?_⟩, fun c hc => ⟨?_, ?_⟩⟩
  · -- The headers are the names and then those of the columns.
    rw [headers_eq_append, htnames]
  · -- Each column shows its fragments, if asked for, and then itself.
    rw [shown, List.map_flatMap]
    refine List.flatMap_congr fun c _ => ?_
    rw [Column.shown, List.map_append, apply_ite (List.map Prod.fst), List.map_map]
    rfl
  · -- A row is made from one input, whose values come first.
    rw [rows_eq_map hsound, List.forall₂_map_right_iff, List.forall₂_same]
    intro input hinput
    rw [inputs, htnames] at hinput
    have hlen := mem_bitRows_iff.mp hinput
    refine ⟨?_, hlen, _, rfl, ?_⟩
    · rw [headers_eq_append, htnames, List.length_append, List.length_append, List.length_map,
        List.length_map, hlen]
    · rw [List.forall₂_map_left_iff, List.forall₂_map_right_iff, List.forall₂_same]
      intro x hx
      have hheads := heads_of_shown hsound fragments x hx
      rw [htnames] at hheads ⊢
      exact ⟨x.2, fun limit' style => parse_of_heads hheads,
        fun limit' => evaluate_of_heads hheads hnames hlen⟩
  · -- Each column is that of its expression, in every style.
    rcases List.mem_map.mp hc with ⟨entry, hentry, rfl⟩
    have hholds := Column.holds_of_isFor (hsound entry hentry)
    rw [hholds.expression_eq]
    exact hholds.tree_eq
  · rw [Column.stepIndices_eq_range, Column.length_inner_binary]

/-- A table with a repeated sub-expression, a negated sum, a single variable, a request
    that is refused and one that is repeated. -/
theorem display_of_mixed_requests :
    ∃ start t, create ["a", "b"] 12 = .ok start ∧
      start.performAll 20 [⟨"a*b+a*b", "html"⟩, ⟨"!(a+b)", "text"⟩, ⟨"a+x", "html"⟩,
        ⟨"a", "text"⟩, ⟨"a*b+a*b", "text"⟩] = t ∧
      t.headers true = ["a", "b", "(a*b)", "(a*b)", "a*b+a*b", "(a+b)", "!(a+b)", "a"] ∧
      List.Forall₂ (fun input row => row.length = 8 ∧ ∃ cells, row = input ++ cells)
        t.inputs (t.rows true) ∧
      List.Forall₂ (fun input row => row.length = 5 ∧ ∃ cells, row = input ++ cells)
        t.inputs (t.rows false) ∧
      ∀ c ∈ t.functions.values, c.stepIndices =
        List.range (if c.tree.isBinary then c.fragments.length - 1 else c.fragments.length) := by
  have hstart : create ["a", "b"] 12 = .ok ⟨["a", "b"], .empty⟩ := rfl
  have hnames : ∀ name ∈ ["a", "b"], name.length = 1 := by decide
  -- The table itself is left alone: only its headers are computed.
  obtain ⟨t, ht⟩ : ∃ t, performAll 20 ⟨["a", "b"], .empty⟩ [⟨"a*b+a*b", "html"⟩,
    ⟨"!(a+b)", "text"⟩, ⟨"a+x", "html"⟩, ⟨"a", "text"⟩, ⟨"a*b+a*b", "text"⟩] = t := ⟨_, rfl⟩
  rcases display_aligned hstart hnames ht true with ⟨⟨_, _, _, hrows⟩, hcolumns⟩
  rcases display_aligned hstart hnames ht false with ⟨⟨_, _, _, hplain⟩, _⟩
  have hheaders : t.headers true =
      ["a", "b", "(a*b)", "(a*b)", "a*b+a*b", "(a+b)", "!(a+b)", "a"] := by
    rw [← ht]
    rfl
  have hshort : t.headers false = ["a", "b", "a*b+a*b", "!(a+b)", "a"] := by
    rw [← ht]
    rfl
  rw [hheaders] at hrows
  rw [hshort] at hplain
  refine ⟨_, t, hstart, ht, hheaders, hrows.imp ?_, hplain.imp ?_, fun c hc => (hcolumns c hc).2⟩
  · rintro input row ⟨hlen, _, cells, hrow, _⟩
    exact ⟨hlen, cells, hrow⟩
  · rintro input row ⟨hlen, _, cells, hrow, _⟩
    exact ⟨hlen, cells, hrow⟩

end TruthTable

end BoolCalc
