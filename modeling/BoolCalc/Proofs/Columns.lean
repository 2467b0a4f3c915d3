import BoolCalc.Proofs.Rows
import BoolCalc.Table.Basic
import Mathlib.Data.List.Forall2

/-!
# The Columns of a Table

What evaluating a function in every row comes to.

A column is built by one pass over the rows that may break off in any of them.
It is described here twice. `build_spec` looks at a column that has been built
and says that it holds what was evaluated, for a tree of any kind.
`build_eq_tabulated` looks at a regular tree before anything is evaluated: if
the names cover its variables, the pass cannot break off, and the column is
the one whose bits are the values of the tree as a formula.
`build_of_unbound` is about the other case, in which the very first row fails.

## Main definitions

* `Column.tabulated`: The column of a tree by the values of formulas.

## Theorems

* `mapM_eq_ok_iff`: When a pass that may break off does not.
* `exists_of_mapM_error`: Where it breaks off.
* `build_spec`: A column holds what was evaluated.
* `build_eq_tabulated`: The column of a tree over names that cover it.
* `build_of_unbound`: Why there is no column otherwise.
-/

namespace BoolCalc

/-- A pass over a list gets through exactly if it gets through at each item. -/
theorem mapM_eq_ok_iff {ε α β : Type} {f : α → Except ε β} {xs : List α} {ys : List β} :
    xs.mapM f = .ok ys ↔ List.Forall₂ (fun x y => f x = .ok y) xs ys := by
  induction xs generalizing ys with
  | nil =>
      rw [List.mapM_nil, List.forall₂_nil_left_iff]
      exact ⟨fun h => (Except.ok.inj h).symm, fun h => congrArg Except.ok h.symm⟩
  | cons x rest ih =>
      rw [List.mapM_cons, List.forall₂_cons_left_iff]
      -- The head is tried first, and the rest only if it gets through.
      cases hx : f x with
      | error err =>
          refine iff_of_false nofun ?_
          rintro ⟨y, _, hy, _⟩
          exact absurd hy nofun
      | ok y =>
          cases hrest : rest.mapM f with
          | error err =>
              refine iff_of_false nofun ?_
              rintro ⟨_, ys', _, hys, _⟩
              rw [← ih, hrest] at hys
              exact absurd hys nofun
          | ok ys' =>
              constructor
              · intro h
                cases h
                exact ⟨y, ys', rfl, ih.mp hrest, rfl⟩
              · -- What the two lists hold is determined by the items, so they are the same.
                rintro ⟨_, ys'', hy, hys, rfl⟩
                cases hy
                rw [← ih, hrest] at hys
                cases hys
                rfl

/-- A pass breaks off at an item with the error of that item. -/
theorem mapM_cons_error {ε α β : Type} {f : α → Except ε β} {x : α} {err : ε} (rest : List α)
    (h : f x = .error err) : (x :: rest).mapM f = .error err := by
  rw [List.mapM_cons, h]
  rfl

namespace Column

section Building

variable {tree : Expr} {fragments : List Expr} {bound : Bindings}

theorem evalRow_eq_ok_iff {value : Bit} {values : List Bit} :
    evalRow tree fragments bound = .ok (value, values) ↔ tree.eval bound.get? = .ok value ∧
      List.Forall₂ (fun f v => f.eval bound.get? = .ok v) fragments values := by
  rw [← mapM_eq_ok_iff, evalRow]
  -- The tree comes first in a row, then its fragments from left to right.
  cases tree.eval bound.get? with
  | error err => exact iff_of_false nofun fun h => absurd h.1 nofun
  | ok v =>
      cases fragments.mapM fun f => f.eval bound.get? with
      | error err => exact iff_of_false nofun fun h => absurd h.2 nofun
      | ok vs =>
          constructor
          · intro h
            cases h
            exact ⟨rfl, rfl⟩
          · rintro ⟨hv, hvs⟩
            cases hv
            cases hvs
            rfl

theorem evalRow_of_error {err : EvalError} (h : tree.eval bound.get? = .error err) :
    evalRow tree fragments bound = .error err := by
  rw [evalRow, h]
  rfl

end Building

/-- A column that has been built is that of its expression and its tree, and it
    holds what these and the fragments were evaluated to, one after another. -/
theorem build_spec {expression : String} {tree : Expr} {rows : List Bindings} {c : Column}
    (h : build expression tree rows = .ok c) :
    c.expression = expression ∧ c.tree = tree ∧
      List.Forall₂ (fun bound v => tree.eval bound.get? = .ok v) rows c.values ∧
      List.Forall₂ (fun bound vs =>
        List.Forall₂ (fun f v => f.eval bound.get? = .ok v) tree.fragments vs)
        rows c.fragmentValues := by
  rw [build] at h
  cases hrows : rows.mapM (evalRow tree tree.fragments) with
  | error err =>
      rw [hrows] at h
      exact absurd h nofun
  | ok results =>
      rw [hrows] at h
      cases h
      -- Every row has been evaluated, to the value and to the values of the fragments.
      have heach := mapM_eq_ok_iff.mp hrows
      refine ⟨rfl, rfl, ?_, ?_⟩
      · rw [List.forall₂_map_right_iff]
        exact heach.imp fun _ _ hrow => (evalRow_eq_ok_iff.mp hrow).1
      · rw [List.forall₂_map_right_iff]
        exact heach.imp fun _ _ hrow => (evalRow_eq_ok_iff.mp hrow).2

/-- The column of a tree whose bits are the values of formulas. -/
def tabulated (names : List String) (expression : String) (tree : Expr) : Column :=
  let rows := bitRows names.length
  ⟨expression, tree, rows.map fun row => tree.value (rowAssignment names row),
    rows.map fun row => tree.fragments.map fun f => f.value (rowAssignment names row)⟩

section Regular

variable {tree : Expr} {names : List String}

/-- In a row over names that cover its variables, a tree and its fragments are
    evaluated to their values. -/
theorem evalRow_of_covered (htree : tree.Regular) (hcover : ∀ s ∈ tree.vars, s ∈ names)
    {row : List Bit} (hlen : row.length = names.length) :
    evalRow tree tree.fragments (bindRow names row) =
      .ok (tree.value (rowAssignment names row),
        tree.fragments.map fun f => f.value (rowAssignment names row)) := by
  have hbound : ∀ s ∈ tree.vars,
      (bindRow names row).get? s = some (rowAssignment names row s) :=
    fun s hs => get?_bindRow_of_mem hlen (hcover s hs)
  refine evalRow_eq_ok_iff.mpr ⟨Expr.eval_eq_value htree hbound, ?_⟩
  rw [List.forall₂_map_right_iff, List.forall₂_same]
  intro f hf
  exact Expr.eval_eq_value (Expr.regular_of_fragment htree hf)
    fun s hs => hbound s (Expr.vars_of_fragment hf s hs)

/-- Over names that cover the variables of a tree there is a column, and its
    bits are the values of formulas. -/
theorem build_eq_tabulated (htree : tree.Regular) (hcover : ∀ s ∈ tree.vars, s ∈ names)
    (expression : String) :
    build expression tree ((bitRows names.length).map (bindRow names)) =
      .ok (tabulated names expression tree) := by
  have hrows : ((bitRows names.length).map (bindRow names)).mapM (evalRow tree tree.fragments) =
      .ok ((bitRows names.length).map fun row => (tree.value (rowAssignment names row),
        tree.fragments.map fun f => f.value (rowAssignment names row))) := by
    rw [mapM_eq_ok_iff, List.forall₂_map_left_iff, List.forall₂_map_right_iff, List.forall₂_same]
    exact fun row hrow => evalRow_of_covered htree hcover (mem_bitRows_iff.mp hrow)
  rw [build, hrows]
  simp only [bind, Except.bind, pure, Except.pure, List.map_map, tabulated]
  rfl

/-- If a variable of a tree is not among the names, there is no column, and the
    first such variable from the left is the reason. -/
theorem build_of_unbound (htree : tree.Regular) {s : String}
    (hs : tree.vars.find? (fun s => !names.contains s) = some s) (expression : String) :
    build expression tree ((bitRows names.length).map (bindRow names)) =
      .error (.undefinedVariable s) := by
  cases hrows : bitRows names.length with
  | nil => exact absurd hrows (bitRows_ne_nil _)
  | cons row rest =>
      have hlen : row.length = names.length :=
        mem_bitRows_iff.mp (hrows ▸ List.mem_cons_self)
      -- A row binds just the names, and so the first row is where it fails.
      have hfirst : firstUnbound (bindRow names row).get? tree.vars = some s := by
        rw [← hs, firstUnbound]
        refine congrArg (fun p => List.find? p tree.vars) (funext fun s => ?_)
        by_cases hmem : s ∈ names
        · rw [get?_bindRow_of_mem hlen hmem, List.contains_iff_mem.mpr hmem]
          rfl
        · rw [(get?_bindRow_eq_none_iff hlen).mpr hmem,
            Bool.eq_false_iff.mpr (mt List.contains_iff_mem.mp hmem)]
          rfl
      have heval : tree.eval (bindRow names row).get? = .error (.undefinedVariable s) := by
        rw [Expr.eval_of_regular htree, hfirst]
      rw [build, List.map_cons, mapM_cons_error _ (evalRow_of_error heval)]
      rfl

end Regular

end Column

end BoolCalc
