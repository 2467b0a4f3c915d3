import BoolCalc.Proofs.Entries
import BoolCalc.Proofs.Literals
import BoolCalc.Proofs.Renaming
import BoolCalc.Proofs.Tabulation

/-!
# Identifiers are Interchangeable

A renaming of the identifiers passes through evaluation and tabulation as it
passes through parsing.

Here two names are compared: a name that is looked up and a name that is bound,
or a name that is listed and a name that has been listed before. Both are
renamed, and since different names stay different the comparison comes out as
before. Maps are renamed entry by entry, so that their order is kept and no name
is ever sorted.

A renaming changes no value. What a context binds names to stays as it is, also
where it is a text that could be a name, and so do the bits of a table.

## Main definitions

* `Renaming.context`, `Renaming.evalError`: A context and an evaluation error
  with their names renamed.
* `Renaming.column`, `Renaming.table`, `Renaming.error`: The same for columns,
  tables and errors of all stages.

## Theorems

* `bindings_context`: What a renamed context comes to.
* `evaluate_context`: A renamed tree in a renamed context.
* `build_rows`, `tabulate_table`: The column of a renamed function.
* `ofExpression_text`: The table of a renamed function.
* `identifiers_interchangeable`: All of this in one statement.
-/

namespace BoolCalc

/-- A pass over changed items, each of which only has its error changed. -/
theorem mapM_mapError {ε ε' α α' β : Type} {f : α → Except ε β} {f' : α' → Except ε' β}
    (g : α → α') (h : ε → ε') (hf : ∀ x, f' (g x) = (f x).mapError h) (xs : List α) :
    (xs.map g).mapM f' = (xs.mapM f).mapError h := by
  induction xs with
  | nil => rfl
  | cons x rest ih =>
      -- An item that fails ends both passes, with errors that correspond.
      rw [List.map_cons, List.mapM_cons, List.mapM_cons, hf, ih]
      cases f x with
      | error err => rfl
      | ok y =>
          cases rest.mapM f with
          | error err | ok ys => rfl

namespace Renaming

variable (r : Renaming)

/-- A key after the renaming, which only a text is changed by. -/
def scalar : Scalar → Scalar
  | .text s => .text (r.text s)
  | s => s

theorem text_beq (s t : String) : (r.text s == r.text t) = (s == t) := by
  rw [Bool.eq_iff_iff, beq_iff_eq, beq_iff_eq, r.text_injective.eq_iff]

/-- What a renamed key denotes. -/
def identity : Identity → Identity
  | .text s => .text (r.text s)
  | i => i

theorem identity_injective : Function.Injective r.identity := by
  intro i j h
  -- Only a key that is a text is renamed, and it stays one.
  cases i with
  | text s =>
      cases j with
      | text t => exact congrArg Identity.text (r.text_injective (Identity.text.inj h))
      | null | integer n | fraction x => exact absurd h nofun
  | null | integer n | fraction x =>
      cases j with
      | text t => exact absurd h nofun
      | null | integer m | fraction y => exact h

theorem identity_scalar (x : Scalar) : (r.scalar x).identity = r.identity x.identity := by
  cases x with
  | null | truth b | integer n | text s => rfl
  | float x =>
      have hsame : r.scalar (.float x) = .float x := rfl
      rw [hsame, Scalar.identity]
      cases x.toInt? with
      | none | some n => rfl

theorem scalar_beq (x y : Scalar) : (r.scalar x == r.scalar y) = (x == y) :=
  decide_eq_decide.mpr (by rw [identity_scalar, identity_scalar, r.identity_injective.eq_iff])

/-- A context after the renaming of its keys. -/
def context (c : Context) : Context := c.mapEntries r.scalar id r.scalar_beq

/-- Bindings after the renaming of their names. -/
def bindings (bound : Bindings) : Bindings := bound.mapEntries r.text id r.text_beq

theorem hasLiteral_scalar {key : Scalar} (h : (Value.scalar key).HasLiteral) :
    (Value.scalar (r.scalar key)).HasLiteral := by
  cases key with
  | text s => rfl
  | null | truth b | integer n | float x => exact h

/-- An evaluation error after the renaming of the names in it. -/
def evalError : EvalError → EvalError
  | .invalidName key h => .invalidName (r.scalar key) (r.hasLiteral_scalar h)
  | .invalidBit name value h => .invalidBit (r.text name) value h
  | .unwritten fault => .unwritten fault
  | .undefinedVariable symbol => .undefinedVariable (r.text symbol)
  | .invalidOperator node op => .invalidOperator node op
  | .tooDeep => .tooDeep

/-- An error of a table after the renaming. -/
def tableError : TableError → TableError
  | .tooManyVariables count limit => .tooManyVariables count limit
  | .duplicateNames names => .duplicateNames (names.map r.text)
  | .unknownFunction expression => .unknownFunction (r.text expression)

/-- An error of any stage after the renaming. -/
def error : Error → Error
  | .parse err => .parse (r.parseError err)
  | .eval err => .eval (r.evalError err)
  | .table err => .table (r.tableError err)

/-- A column after the renaming, with the same bits. -/
def column (c : Column) : Column :=
  ⟨r.text c.expression, r.expr c.tree, c.values, c.fragmentValues⟩

/-- A table after the renaming of its names and of its functions. -/
def table (t : TruthTable) : TruthTable :=
  ⟨t.names.map r.text, t.functions.mapEntries r.text r.column r.text_beq⟩

section Evaluation

theorem ofText?_text (s : String) : Bit.ofText? (r.text s) = Bit.ofText? s := by
  have hbit : ∀ b : Bit, r.text s = b.text ↔ s = b.text := by
    intro b
    rw [← r.text_injective.eq_iff (a := s), text_bit]
  have hzero : r.text s = "0" ↔ s = "0" := hbit .zero
  have hone : r.text s = "1" ↔ s = "1" := hbit .one
  simp only [Bit.ofText?, hzero, hone]

theorem get?_bindings (bound : Bindings) (s : String) :
    (r.bindings bound).get? (r.text s) = bound.get? s := by
  rw [bindings, OrderedMap.get?_mapEntries, Option.map_id]
  rfl

/-- A renamed name is looked up where the name was. -/
theorem evalSymbol_text (bound : Bindings) (s : String) :
    Expr.evalSymbol (r.bindings bound).get? (r.text s) =
      (Expr.evalSymbol bound.get? s).mapError r.evalError := by
  rw [Expr.evalSymbol, Expr.evalSymbol, ofText?_text, get?_bindings]
  cases Bit.ofText? s with
  | some b => rfl
  | none =>
      cases bound.get? s with
      | some b | none => rfl

theorem applyBinary_mapError (op : String) (x y : Bit) :
    Expr.applyBinary op x y = (Expr.applyBinary op x y).mapError r.evalError := by
  rw [Expr.applyBinary]
  cases BinaryOp.ofText? op with
  | some op | none => rfl

theorem evalWithin_expr (bound : Bindings) (limit : Nat) (e : Expr) :
    (r.expr e).evalWithin (r.bindings bound).get? limit =
      (e.evalWithin bound.get? limit).mapError r.evalError := by
  induction e generalizing limit with
  | terminal symbol =>
      simp only [expr, Expr.evalWithin]
      exact r.evalSymbol_text bound symbol
  | unary op operand ih =>
      by_cases hop : op = negationText
      · cases limit with
        | zero =>
            simp only [expr, Expr.evalWithin, if_pos hop]
            rfl
        | succ limit =>
            simp only [expr, Expr.evalWithin, if_pos hop, ih]
            cases operand.evalWithin bound.get? limit with
            | error err | ok v => rfl
      · -- An illegal operator is reported before the limit is looked at.
        cases limit with
        | zero | succ limit =>
            simp only [expr, Expr.evalWithin, if_neg hop]
            rfl
  | binary op left right ihl ihr =>
      cases limit with
      | zero =>
          simp only [expr, Expr.evalWithin]
          rfl
      | succ limit =>
          simp only [expr, Expr.evalWithin, ihl, ihr]
          cases left.evalWithin bound.get? limit with
          | error err => rfl
          | ok x =>
              -- The right side is evaluated only behind a value of the left one.
              cases right.evalWithin bound.get? limit with
              | error err => rfl
              | ok y => exact r.applyBinary_mapError op x y

theorem eval_expr (bound : Bindings) (e : Expr) :
    (r.expr e).eval (r.bindings bound).get? = (e.eval bound.get?).mapError r.evalError := by
  rw [← Expr.evalWithin_eq_eval _ (Nat.le_refl (r.expr e).height), height_expr, evalWithin_expr,
    Expr.evalWithin_eq_eval _ (Nat.le_refl e.height)]

theorem toName?_scalar (key : Scalar) : (r.scalar key).toName? = key.toName?.map r.text := by
  cases key with
  | null | truth b | integer n | float x => rfl
  | text s =>
      rw [scalar, Scalar.toName?, Scalar.toName?, length_text]
      -- A key of another length is no name, and stays as long as it is.
      by_cases h : s.length = 1
      · rw [if_pos h, if_pos h]
        rfl
      · rw [if_neg h, if_neg h]
        rfl

/-- The fault of writing a value down has no names in it. -/
theorem evalError_showing {shown : Value} {err err' : shown.HasLiteral → EvalError}
    (h : ∀ hshown, r.evalError (err hshown) = err' hshown) :
    r.evalError (.showing shown err) = .showing shown err' := by
  rcases EvalError.showing_eq_iff.mp (rfl : EvalError.showing shown err = _) with
    ⟨hshown, herr⟩ | ⟨fault, hfault, herr⟩
  · rw [herr, h, EvalError.showing_of_hasLiteral hshown]
  · rw [herr, EvalError.showing_of_literal hfault]
    rfl

theorem showing_scalar (key : Scalar) :
    EvalError.showing (.scalar (r.scalar key)) (fun h => .invalidName (r.scalar key) h) =
      r.evalError (.showing (.scalar key) fun h => .invalidName key h) := by
  cases key with
  | text s =>
      -- A text can always be shown, before and after.
      rw [EvalError.showing_of_hasLiteral rfl, EvalError.showing_of_hasLiteral rfl]
      rfl
  | null | truth b | integer n | float x =>
      symm
      exact r.evalError_showing fun _ => rfl

theorem bindEntry_scalar (key : Scalar) (value : Value) :
    Context.bindEntry (r.scalar key) value =
      ((Context.bindEntry key value).mapError r.evalError).map (Prod.map r.text id) := by
  rw [Context.bindEntry, Context.bindEntry, toName?_scalar]
  cases key.toName? with
  -- A key that is no name is shown renamed in the error, as far as it can be written.
  | none => exact congrArg Except.error (r.showing_scalar key)
  | some name =>
      simp only [Option.map_some]
      cases value.toBit? with
      -- A value is not renamed, so what is shown of it is the same.
      | none =>
          refine congrArg Except.error ?_
          symm
          exact r.evalError_showing fun _ => rfl
      | some b => rfl

theorem bindAll_map (bound : Bindings) (entries : List (Scalar × Value)) :
    Context.bindAll (r.bindings bound) (entries.map (Prod.map r.scalar id)) =
      ((Context.bindAll bound entries).mapError r.evalError).map r.bindings := by
  induction entries generalizing bound with
  | nil => rfl
  | cons entry rest ih =>
      rcases entry with ⟨key, value⟩
      simp only [List.map_cons, Prod.map_apply, id_eq, Context.bindAll, bindEntry_scalar]
      cases Context.bindEntry key value with
      | error err => rfl
      | ok pair =>
          -- The next entries are bound where the names before are renamed.
          have hinsert : r.bindings (bound.insert pair.1 pair.2) =
              (r.bindings bound).insert (r.text pair.1) pair.2 :=
            OrderedMap.mapEntries_insert r.text id r.text_beq bound pair.1 pair.2
          rw [← ih, hinsert]
          rfl

/-- A renamed context comes to the renamed bindings. -/
theorem bindings_context (c : Context) :
    (r.context c).bindings = (c.bindings.mapError r.evalError).map r.bindings :=
  r.bindAll_map .empty c.entries

/-- A renamed tree has in the renamed context the bit that the tree has in the
    context, or else the renamed error. -/
theorem evaluate_context (limit : Nat) (e : Expr) (c : Context) :
    evaluate limit (r.expr e) (r.context c) = (evaluate limit e c).mapError r.evalError := by
  rw [evaluate, evaluate, bindings_context]
  cases c.bindings with
  | error err => rfl
  | ok bound => exact r.evalWithin_expr bound limit e

end Evaluation

section Tables

theorem evalRow_expr (tree : Expr) (fragments : List Expr) (bound : Bindings) :
    Column.evalRow (r.expr tree) (fragments.map r.expr) (r.bindings bound) =
      (Column.evalRow tree fragments bound).mapError r.evalError := by
  rw [Column.evalRow, Column.evalRow, eval_expr, mapM_mapError r.expr r.evalError
    (fun f => r.eval_expr bound f)]
  cases tree.eval bound.get? with
  | error err => rfl
  | ok value =>
      cases fragments.mapM fun f => f.eval bound.get? with
      | error err | ok values => rfl

theorem build_rows (expression : String) (tree : Expr) (rows : List Bindings) :
    Column.build (r.text expression) (r.expr tree) (rows.map r.bindings) =
      ((Column.build expression tree rows).mapError r.evalError).map r.column := by
  rw [Column.build, Column.build, fragments_expr, mapM_mapError r.bindings r.evalError
    (fun bound => r.evalRow_expr tree tree.fragments bound)]
  cases rows.mapM (Column.evalRow tree tree.fragments) with
  | error err | ok results => rfl

/-- A row binds the renamed names to the same bits. -/
theorem bindRow_map (names : List String) (row : List Bit) :
    bindRow (names.map r.text) row = r.bindings (bindRow names row) := by
  rw [bindRow, List.zip_map_left, bindings, bindRow, ← OrderedMap.ofList_map r.text id r.text_beq]

theorem inputs_table (t : TruthTable) : (r.table t).inputs = t.inputs := by
  rw [TruthTable.inputs, TruthTable.inputs, table, List.length_map]

theorem contexts_table (t : TruthTable) :
    (r.table t).contexts = t.contexts.map r.bindings := by
  rw [TruthTable.contexts, TruthTable.contexts, inputs_table, List.map_map]
  exact List.map_congr_left fun row _ => r.bindRow_map t.names row

/-- A renamed table tabulates a renamed function as the table does the
    function. -/
theorem tabulate_table (limit : Nat) (t : TruthTable) (expression : String)
    (style : PointerStyle) :
    (r.table t).tabulate limit (r.text expression) style =
      ((t.tabulate limit expression style).mapError r.error).map r.column := by
  rw [TruthTable.tabulate, TruthTable.tabulate, parse_text]
  cases parse limit expression style with
  | error err => rfl
  | ok tree =>
      simp only [Except.mapError, Except.map]
      -- The rows are the same, and the parsed trees correspond.
      rw [contexts_table, build_rows]
      cases Column.build expression tree t.contexts with
      | error err | ok column => rfl

theorem column_table (t : TruthTable) (expression : String) :
    (r.table t).column (r.text expression) =
      ((t.column expression).mapError r.tableError).map r.column := by
  rw [TruthTable.column, TruthTable.column, table, OrderedMap.get?_mapEntries]
  cases t.functions.get? expression with
  | none | some c => rfl

theorem add_table (limit : Nat) (t : TruthTable) (expression : String) (style : PointerStyle) :
    (r.table t).add limit (r.text expression) style =
      ((t.add limit expression style).mapError r.error).map r.table := by
  rw [TruthTable.add, TruthTable.add, tabulate_table]
  cases t.tabulate limit expression style with
  | error err => rfl
  | ok column =>
      refine congrArg Except.ok (congrArg (TruthTable.mk (t.names.map r.text)) ?_)
      exact (OrderedMap.mapEntries_insert r.text r.column r.text_beq t.functions expression
        column).symm

theorem create_map (names : List String) (maxVariables : Int) :
    TruthTable.create (names.map r.text) maxVariables =
      ((TruthTable.create names maxVariables).mapError r.tableError).map r.table := by
  have hdistinct : (names.map r.text).Nodup ↔ names.Nodup := List.nodup_map_iff r.text_injective
  rw [TruthTable.create, TruthTable.create, List.length_map]
  -- Neither the number of the names nor their being distinct changes.
  by_cases hmany : maxVariables < names.length
  · rw [if_pos hmany, if_pos hmany]
    rfl
  · by_cases hnodup : names.Nodup
    · rw [if_neg hmany, if_neg hmany, if_pos hnodup, if_pos (hdistinct.mpr hnodup)]
      rfl
    · rw [if_neg hmany, if_neg hmany, if_neg hnodup, if_neg (mt hdistinct.mp hnodup)]
      rfl

/-- The table of a renamed function is the renamed table of the function, or
    fails for the renamed reason. -/
theorem ofExpression_text (limit : Nat) (expression : String) (maxVariables : Int)
    (style : PointerStyle) :
    TruthTable.ofExpression limit (r.text expression) maxVariables style =
      ((TruthTable.ofExpression limit expression maxVariables style).mapError r.error).map
        r.table := by
  rw [TruthTable.ofExpression, TruthTable.ofExpression, collectVariables_text, create_map]
  cases TruthTable.create (collectVariables expression) maxVariables with
  | error err => rfl
  | ok t => exact r.add_table limit t expression style

end Tables

end Renaming

/-- Identifiers are interchangeable. Whatever different identifiers are put for
    different ones, a source is parsed as the renamed tree or refused with an
    error of the same kind at the same position, and its variables are the
    renamed ones in the same order. The renamed tree has in the renamed context
    the same bit, or else the renamed error. There is a table of the renamed
    function if there is one of the function, with the same inputs, values and
    values of fragments. -/
theorem identifiers_interchangeable (r : Renaming) :
    (∀ (limit : Nat) (source : String) (style : PointerStyle),
      (∀ tree, parse limit source style = .ok tree →
        parse limit (r.text source) style = .ok (r.expr tree)) ∧
      ∀ err, parse limit source style = .error err →
        ∃ err', parse limit (r.text source) style = .error err' ∧ err' = r.parseError err ∧
          err'.cause.complaint? = err.cause.complaint? ∧ err'.pos = err.pos) ∧
      (∀ source, collectVariables (r.text source) = (collectVariables source).map r.text) ∧
      (∀ (limit : Nat) (tree : Expr) (context : Context),
        evaluate limit (r.expr tree) (r.context context) =
          (evaluate limit tree context).mapError r.evalError) ∧
      ∀ (limit : Nat) (source : String) (maxVariables : Int) (style : PointerStyle),
        (∀ t, TruthTable.ofExpression limit source maxVariables style = .ok t →
          ∃ t' column column',
            TruthTable.ofExpression limit (r.text source) maxVariables style = .ok t' ∧
            t' = r.table t ∧ t'.inputs = t.inputs ∧
            t.column source = .ok column ∧ t'.column (r.text source) = .ok column' ∧
            column'.values = column.values ∧ column'.fragmentValues = column.fragmentValues) ∧
        ∀ err, TruthTable.ofExpression limit source maxVariables style = .error err →
          TruthTable.ofExpression limit (r.text source) maxVariables style =
            .error (r.error err) := by
  refine ⟨fun limit source style => ⟨?_, ?_⟩, r.collectVariables_text, r.evaluate_context,
    fun limit source maxVariables style => ⟨?_, ?_⟩⟩
  · -- Both answers of the parser, the tree and the error.
    intro tree hparse
    rw [r.parse_text, hparse]
    rfl
  · intro err hparse
    refine ⟨r.parseError err, ?_, rfl, r.complaint?_cause err.cause, r.pos_parseError err⟩
    rw [r.parse_text, hparse]
    rfl
  · -- The column is that of the renamed tree, with the same values.
    intro t htable
    rcases TruthTable.ofExpression_eq_ok_iff.mp htable with ⟨e, _, _, hstore⟩
    have hcolumn : t.column source =
        .ok (Column.tabulated (collectVariables source) source e) := by
      rw [hstore, TruthTable.column_store]
    refine ⟨_, _, r.column (Column.tabulated (collectVariables source) source e), ?_, rfl,
      r.inputs_table t, hcolumn, ?_, rfl, rfl⟩
    · rw [r.ofExpression_text, htable]
      rfl
    · rw [r.column_table, hcolumn]
      rfl
  · intro err htable
    rw [r.ofExpression_text, htable]
    rfl

/-- The renaming by which two identifiers change places. -/
def Renaming.swap (c d : Identifier) : Renaming := ⟨Equiv.swap c d, (Equiv.swap c d).injective⟩

/-- A letter and a space change places. The space stands first in the source and
    stays a variable like any other. -/
theorem interchange_letter_and_space :
    ∃ (r : Renaming) (tree : Expr), r = .swap ⟨'a', by decide⟩ ⟨' ', by decide⟩ ∧
      r.text "a*!(b+ )" = " *!(b+a)" ∧ parse 8 "a*!(b+ )" .html = .ok tree ∧
      parse 8 " *!(b+a)" .html = .ok (r.expr tree) ∧
      collectVariables " *!(b+a)" = ["a", "b", " "].map r.text := by
  rcases identifiers_interchangeable (.swap ⟨'a', by decide⟩ ⟨' ', by decide⟩) with
    ⟨hparse, hvariables, _, _⟩
  have htext : Renaming.text (.swap ⟨'a', by decide⟩ ⟨' ', by decide⟩) "a*!(b+ )" = " *!(b+a)" :=
    rfl
  have htree : parse 8 "a*!(b+ )" .html = .ok (.connect .conj (.symbol 'a')
      (Expr.connect .disj (.symbol 'b') (.symbol ' ')).negation) := rfl
  refine ⟨_, _, rfl, htext, htree, ?_, ?_⟩
  · rw [← htext]
    exact (hparse 8 _ .html).1 _ htree
  · rw [← htext, hvariables]
    rfl

end BoolCalc
