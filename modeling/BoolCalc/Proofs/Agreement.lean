import BoolCalc.Proofs.Tabulation

/-!
# Tables and Evaluation

The table of a function says what evaluating the function says.

A table lists the values of a function without regard to any context, and a
context is evaluated without regard to any table. The two meet in the
assignment that a context comes to. It is a row as far as the names of the
table are concerned, the row stands at the number that it spells, and what the
table holds there is the value of the tree under the assignment. Evaluation
computes the same value, since a value depends on nothing but the variables,
and the names of the table are the variables.

What else a context binds, in which order and in which form, is gone once it
has come to bindings.

## Theorems

* `evaluate_ok_inv`: What is known of an evaluation that has a value.
* `evaluateStep_eq_ok_iff`: What is known of a step that has a value.
* `evaluateFragments_of_bound`: The fragments have values where the variables
  are bound.
* `tabulated_at_assignment`: Where the values under an assignment stand.
* `ofExpression_agrees`: The table of a function agrees with every evaluation.
-/

namespace BoolCalc

section Evaluation

variable {limit : Nat} {e : Expr} {context : Context}

/-- An evaluation has a value only within the limit, and only if all variables
    are bound by the context. -/
theorem evaluate_ok_inv {b : Bit} (hregular : e.Regular) (h : evaluate limit e context = .ok b) :
    ∃ bound, context.bindings = .ok bound ∧ e.height ≤ limit ∧
      (∀ s ∈ e.vars, bound.get? s = some (assigned bound.get? s)) ∧
      b = e.value (assigned bound.get?) := by
  rw [evaluate] at h
  -- The context comes first, so it has bindings.
  cases hbound : context.bindings with
  | error err =>
      rw [hbound] at h
      exact absurd h nofun
  | ok bound =>
      simp only [hbound] at h
      -- A value is found only where there is room for the whole tree.
      have hheight := Expr.height_le_of_evalWithin h
      rw [Expr.evalWithin_eq_eval _ hheight] at h
      exact ⟨bound, rfl, hheight, Expr.bound_of_eval hregular h⟩

/-- A step comes to the printed form of a fragment and its value. -/
theorem evaluateStep_eq_ok_iff {bound : Bindings} {step : String × Bit} :
    evaluateStep limit bound e = .ok step ↔
      step.1 = e.text ∧ e.evalWithin bound.get? limit = .ok step.2 := by
  rw [evaluateStep]
  cases heval : e.evalWithin bound.get? limit with
  | error err =>
      refine iff_of_false (fun h => ?_) fun h => ?_
      · split at h
        · cases h
        · cases h
      · cases h.2
  | ok b =>
      -- What has a value is not too deep.
      rw [if_neg (Nat.not_lt.mpr (Expr.height_le_of_evalWithin heval))]
      constructor
      · intro h
        cases h
        exact ⟨rfl, rfl⟩
      · rintro ⟨htext, hb⟩
        cases hb
        rw [← htext]
        rfl

/-- Where the variables of a tree are bound and the limit is not exceeded, every
    fragment has its value. -/
theorem evaluateFragments_of_bound {bound : Bindings} {assignment : String → Bit}
    (hregular : e.Regular) (hcontext : context.bindings = .ok bound) (hheight : e.height ≤ limit)
    (hbound : ∀ s ∈ e.vars, bound.get? s = some (assignment s)) :
    evaluateFragments limit e.fragments context =
      .ok (e.fragments.map fun f => (f.text, f.value assignment)) := by
  rw [evaluateFragments, hcontext]
  refine mapM_eq_ok_iff.mpr ?_
  -- Each fragment is taken by itself.
  rw [List.forall₂_map_right_iff, List.forall₂_same]
  intro f hf
  -- It is no higher than the tree and has no other variables.
  have hlow := Nat.le_trans (Expr.height_of_fragment hf) hheight
  have heval := Expr.eval_eq_value (Expr.regular_of_fragment hregular hf)
    fun s hs => hbound s (Expr.vars_of_fragment hf s hs)
  exact evaluateStep_eq_ok_iff.mpr ⟨rfl, (Expr.evalWithin_eq_eval _ hlow).trans heval⟩

end Evaluation

/-- In the column of a tree the values under an assignment stand at the number
    that the names spell under it. -/
theorem tabulated_at_assignment {names : List String} {e : Expr}
    (hcover : ∀ s ∈ e.vars, s ∈ names) (source : String) (assignment : String → Bit) :
    (Column.tabulated names source e).values[rowNumber (names.map assignment)]? =
        some (e.value assignment) ∧
      (Column.tabulated names source e).fragmentValues[rowNumber (names.map assignment)]? =
        some (e.fragments.map fun f => f.value assignment) := by
  have hrow : (bitRows names.length)[rowNumber (names.map assignment)]? =
      some (names.map assignment) := getElem?_bitRows (List.length_map ..)
  -- On the variables the row describes the assignment it was made from.
  have hvalue : ∀ f : Expr, (∀ s ∈ f.vars, s ∈ names) →
      f.value (rowAssignment names (names.map assignment)) = f.value assignment :=
    fun f hf => Expr.value_congr fun s hs => rowAssignment_map assignment (hf s hs)
  constructor
  · simp only [Column.tabulated, List.getElem?_map, hrow, Option.map_some, hvalue e hcover]
  · simp only [Column.tabulated, List.getElem?_map, hrow, Option.map_some]
    refine congrArg some (List.map_congr_left fun f hf => ?_)
    exact hvalue f fun s hs => hcover s (Expr.vars_of_fragment hf s hs)

namespace TruthTable

/-- The table of a function is complete and agrees with every evaluation. Its
    rows are as many as there are rows of bits, and no two are the same. If a
    context gives the parsed function a value, then it binds the names to bits;
    at the number that these spell the table has the row of them, the value,
    and the values of the fragments in the same context. -/
theorem ofExpression_agrees {limit : Nat} {source : String} {maxVariables : Int}
    {style : PointerStyle} {t : TruthTable}
    (htable : ofExpression limit source maxVariables style = .ok t) :
    t.inputs.length = 2 ^ t.names.length ∧ t.inputs.Nodup ∧
      ∃ column, t.column source = .ok column ∧
        ∀ (limit₁ limit₂ : Nat) (style₁ : PointerStyle) (tree : Expr) (context : Context)
          (b : Bit), parse limit₁ source style₁ = .ok tree →
            evaluate limit₂ tree context = .ok b →
          ∃ bound bits steps, context.bindings = .ok bound ∧
            t.names.map bound.get? = bits.map some ∧
            rowNumber bits < 2 ^ t.names.length ∧
            t.inputs[rowNumber bits]? = some bits ∧
            column.values[rowNumber bits]? = some b ∧
            evaluateFragments limit₂
              ((Parser.ofSource source style₁).construct limit₁).parser.fragments context =
                .ok steps ∧
            column.fragmentValues[rowNumber bits]? = some (steps.map Prod.snd) := by
  rcases ofExpression_eq_ok_iff.mp htable with ⟨e, hparse, _, rfl⟩
  have hderives := derives_of_parse hparse
  refine ⟨length_bitRows _, nodup_bitRows _, _, column_store _ _ _, ?_⟩
  intro limit₁ limit₂ style₁ tree context b hparse₁ heval
  -- The parsed tree is the one that was tabulated, as a source has one tree only.
  obtain rfl := derives_unique hderives (derives_of_parse hparse₁)
  have hregular := regular_of_derives hderives
  rcases evaluate_ok_inv hregular heval with ⟨bound, hcontext, hheight, hbound, rfl⟩
  -- The names are the variables of the tree, so the context binds each of them.
  have hnames := mem_collectVariables_of_derives hderives
  rcases tabulated_at_assignment (fun s hs => (hnames s).mpr hs) source
    (assigned bound.get?) with ⟨hvalue, hfragments⟩
  refine ⟨bound, (collectVariables source).map (assigned bound.get?),
    e.fragments.map fun f => (f.text, f.value (assigned bound.get?)), hcontext, ?_, ?_,
    getElem?_bitRows (List.length_map ..), hvalue, ?_, ?_⟩
  · -- The names are bound to what the assignment gives them.
    rw [List.map_map]
    exact List.map_congr_left fun s hs => hbound s ((hnames s).mp hs)
  · -- The number of a row is below the number of rows.
    have hlt := rowNumber_lt ((collectVariables source).map (assigned bound.get?))
    rwa [List.length_map] at hlt
  · -- The fragments are evaluated in the same context, within the same limit.
    rw [fragments_of_construct hparse₁]
    exact evaluateFragments_of_bound hregular hcontext hheight hbound
  · rw [List.map_map]
    exact hfragments

/-- A context with values of several forms, in another order than the names and
    with an entry too many, is answered by the table. -/
theorem ofExpression_mixed_context :
    ∃ (tree : Expr) (context : Context) (t : TruthTable) (column : Column) (bound : Bindings)
      (bits : List Bit), ofExpression 4 "b+!a" 2 .html = .ok t ∧
      parse 4 "b+!a" .text = .ok tree ∧
      context = OrderedMap.ofList [(.text "x", .scalar (.integer 1)),
        (.text "a", .scalar (.truth true)), (.text "b", .scalar (.text "0"))] ∧
      evaluate 2 tree context = .ok .zero ∧ t.column "b+!a" = .ok column ∧
      context.bindings = .ok bound ∧ t.names.map bound.get? = bits.map some ∧
      t.inputs[rowNumber bits]? = some bits ∧ column.values[rowNumber bits]? = some .zero := by
  have htable : ∃ t, ofExpression 4 "b+!a" 2 .html = .ok t :=
    ⟨_, ofExpression_eq_ok_iff.mpr
      ⟨.connect .disj (.symbol 'b') (Expr.symbol 'a').negation, rfl, by decide, rfl⟩⟩
  rcases htable with ⟨t, htable⟩
  have hparse : parse 4 "b+!a" .text =
      .ok (.connect .disj (.symbol 'b') (Expr.symbol 'a').negation) := rfl
  have heval : evaluate 2 (.connect .disj (.symbol 'b') (Expr.symbol 'a').negation)
      (OrderedMap.ofList [(.text "x", .scalar (.integer 1)), (.text "a", .scalar (.truth true)),
        (.text "b", .scalar (.text "0"))]) = .ok .zero := rfl
  rcases ofExpression_agrees htable with ⟨_, _, column, hcolumn, hagrees⟩
  rcases hagrees _ _ _ _ _ _ hparse heval with
    ⟨bound, bits, _, hbound, hbits, _, hinput, hvalue, _⟩
  exact ⟨_, _, t, column, bound, bits, htable, hparse, rfl, heval, hcolumn, hbound, hbits, hinput,
    hvalue⟩

end TruthTable

end BoolCalc
