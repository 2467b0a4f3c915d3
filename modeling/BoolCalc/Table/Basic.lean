import BoolCalc.Error
import BoolCalc.Evaluate.Basic
import BoolCalc.Parse.Parser
import BoolCalc.Table.Assignment

/-!
# Truth Tables

The values of functions in every assignment of a fixed list of variables.

A table is determined by its variables; its rows and its canonical terms are
computed from them. Functions are added one at a time. Each is parsed and
then evaluated in every row, the whole and each of its fragments, and only if
all of that succeeds does it become a column. Adding a function again
replaces its column where it stands.

The minterm of a row is the product that is one in that row alone, and the
maxterm the sum that is zero in that row alone. A function is the sum of the
minterms of the rows where it is one, and the product of the maxterms of the
rows where it is zero.

## Main definitions

* `Column`: A function with its values.
* `TruthTable`: Variables and columns.
* `TruthTable.create`, `TruthTable.add`, `TruthTable.ofExpression`: Building a
  table.
* `TruthTable.tabulate`, `TruthTable.store`: The two halves of an addition.
* `TruthTable.mintermsOf`, `TruthTable.maxtermsOf`: The canonical forms.
* `TruthTable.headers`, `TruthTable.rows`: The table as it is displayed.
-/

namespace BoolCalc

/-- How many variables a table may have, unless a caller says otherwise. -/
def defaultMaxVariables : Nat := 12

/-- A function with its values in every row. -/
structure Column where
  /-- The source of the function. -/
  expression : String
  /-- Its tree. -/
  tree : Expr
  /-- Its value in each row. -/
  values : List Bit
  /-- The values of its fragments in each row. -/
  fragmentValues : List (List Bit)
  deriving DecidableEq, Repr

namespace Column

/-- The binary sub-expressions of the function. -/
def fragments (c : Column) : List Expr := c.tree.fragments

/-- The positions of the fragments that are not the whole function. -/
def stepIndices (c : Column) : List Nat :=
  (c.fragments.zipIdx.filter fun entry => entry.1 ≠ c.tree).map Prod.snd

/-- The items of a list at some positions. -/
def itemsAt {α : Type} (indices : List Nat) (items : List α) : List α :=
  indices.filterMap fun i => items[i]?

/-- The headers the function contributes to the display. -/
def headers (c : Column) (fragments : Bool) : List String :=
  (if fragments then itemsAt c.stepIndices (c.fragments.map Expr.text) else []) ++ [c.expression]

/-- The cells the function contributes to each row of the display. -/
def cells (c : Column) (fragments : Bool) : List (List Bit) :=
  if fragments then
    let indices := c.stepIndices
    c.fragmentValues.zipWith (fun fs v => itemsAt indices fs ++ [v]) c.values
  else c.values.map ([·])

/-- Evaluate a function and its fragments in one row. -/
def evalRow (tree : Expr) (fragments : List Expr) (bound : Bindings) :
    Except EvalError (Bit × List Bit) := do
  let value ← tree.eval bound.get?
  let values ← fragments.mapM fun f => f.eval bound.get?
  return (value, values)

/-- The column of a function over the given rows. -/
def build (expression : String) (tree : Expr) (rows : List Bindings) : Except EvalError Column := do
  let fragments := tree.fragments
  let values ← rows.mapM (evalRow tree fragments)
  return ⟨expression, tree, values.map Prod.fst, values.map Prod.snd⟩

end Column

/-- Variables with the functions tabulated over them. -/
structure TruthTable where
  /-- The variables, the first being the most significant. -/
  names : List String
  /-- The functions in the order they were added. -/
  functions : OrderedMap String Column

namespace TruthTable

/-- A table without functions. -/
def create (names : List String) (maxVariables : Int) : Except TableError TruthTable :=
  if maxVariables < names.length then .error (.tooManyVariables names.length maxVariables)
  else if names.Nodup then .ok ⟨names, .empty⟩
  else .error (.duplicateNames names)

/-- The rows of bits, in ascending order. -/
def inputs (t : TruthTable) : List (List Bit) := bitRows t.names.length

/-- The bindings of each row. -/
def contexts (t : TruthTable) : List Bindings := t.inputs.map (bindRow t.names)

/-- The variables of a row joined by an operator, negated where they have the
    given bit. -/
def canonicalTerm (names : List String) (negated : Bit) (joiner : BinaryOp) (row : List Bit) :
    String :=
  Text.joinWith joiner.text
    (names.zipWith (fun name b => if b = negated then negationText ++ name else name) row)

/-- The product that is one in a row alone, for each row. -/
def minterms (t : TruthTable) : List String :=
  t.inputs.map (canonicalTerm t.names .zero .conj)

/-- The sum that is zero in a row alone, for each row. -/
def maxterms (t : TruthTable) : List String :=
  t.inputs.map (canonicalTerm t.names .one .disj)

/-- The column of a function in the rows of the table. -/
def tabulate (limit : Nat) (t : TruthTable) (expression : String) (style : PointerStyle) :
    Except Error Column :=
  match parse limit expression style with
  | .error e => .error (.parse e)
  | .ok tree => (Column.build expression tree t.contexts).mapError .eval

/-- Put a column in its place, which it keeps if it is there already. -/
def store (t : TruthTable) (expression : String) (column : Column) : TruthTable :=
  { t with functions := t.functions.insert expression column }

/-- Add a function, or replace it where it stands. -/
def add (limit : Nat) (t : TruthTable) (expression : String) (style : PointerStyle) :
    Except Error TruthTable :=
  (t.tabulate limit expression style).map (t.store expression)

/-- The table of one function over all of its own variables. -/
def ofExpression (limit : Nat) (expression : String) (maxVariables : Int) (style : PointerStyle) :
    Except Error TruthTable :=
  match create (collectVariables expression) maxVariables with
  | .error e => .error (.table e)
  | .ok t => t.add limit expression style

/-- The column of a function. -/
def column (t : TruthTable) (expression : String) : Except TableError Column :=
  match t.functions.get? expression with
  | some c => .ok c
  | none => .error (.unknownFunction expression)

/-- A term between parentheses; the term of no variables has none. -/
def wrapTerm (term : String) : String :=
  if term = "" then "" else "(" ++ term ++ ")"

/-- The terms of the rows in which a function has the given bit, joined by an
    operator. -/
def selectTerms (terms : List String) (selected : Bit) (joiner : BinaryOp) (values : List Bit) :
    String :=
  let pairs := (terms.zip values).filter fun pair => pair.2 = selected
  Text.joinWith joiner.text (pairs.map fun pair => wrapTerm pair.1)

/-- A function as the sum of the minterms of the rows where it is one. -/
def mintermsOf (t : TruthTable) (expression : String) : Except TableError String :=
  (t.column expression).map fun c => selectTerms t.minterms .one .disj c.values

/-- A function as the product of the maxterms of the rows where it is zero. -/
def maxtermsOf (t : TruthTable) (expression : String) : Except TableError String :=
  (t.column expression).map fun c => selectTerms t.maxterms .zero .conj c.values

/-- The headers of the display: the variables, then each function, with its
    fragments before it if they are asked for. -/
def headers (t : TruthTable) (fragments : Bool) : List String :=
  t.names ++ t.functions.values.flatMap (·.headers fragments)

/-- The rows of the display, one cell under each header. -/
def rows (t : TruthTable) (fragments : Bool) : List (List Bit) :=
  t.functions.values.foldl (fun rows c => rows.zipWith (· ++ ·) (c.cells fragments)) t.inputs

end TruthTable

end BoolCalc
