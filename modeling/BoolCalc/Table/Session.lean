import BoolCalc.Table.Basic

/-!
# Table Sessions

Sequences of additions to one table.

A table is filled by requests that may fail, and what it holds afterwards is
what the requests that did not fail have left in it. A request names the
layout of its diagrams, and a name that no layout has is refused before
anything is parsed. The column that a request is answered by is stored only
when it is complete.

## Main definitions

* `Addition`: A single request.
* `Refusal`: Why a request fails.
* `TruthTable.perform`: The answer to a request, and the table after it.
* `TruthTable.performAll`: The table after a sequence of requests.
* `TruthTable.added`: What was added by the requests of a sequence.
-/

namespace BoolCalc

/-- A request to add a function to a table. -/
structure Addition where
  /-- The source of the function. -/
  expression : String
  /-- The name of the layout for the diagrams of errors. -/
  styleName : String
  deriving DecidableEq, Repr

/-- Why a request fails. -/
inductive Refusal
  | unknownStyle (name : String)
  | failed (e : Error)
  deriving Repr

/-- The text of a refusal. -/
def Refusal.message : Refusal → String
  | unknownStyle name => PointerStyle.unknownMessage name
  | failed e => e.message

namespace TruthTable

/-- The answer to a request, and the table after it. -/
def perform (limit : Nat) (t : TruthTable) (a : Addition) : Except Refusal Column × TruthTable :=
  match PointerStyle.ofName? a.styleName with
  | none => (.error (.unknownStyle a.styleName), t)
  | some style =>
    match t.tabulate limit a.expression style with
    | .error e => (.error (.failed e), t)
    | .ok column => (.ok column, t.store a.expression column)

/-- The table after a sequence of requests, whether or not they fail. -/
def performAll (limit : Nat) (t : TruthTable) (additions : List Addition) : TruthTable :=
  additions.foldl (fun t a => (t.perform limit a).2) t

/-- The expressions of the requests in a sequence that do not fail, one after
    another. -/
def added (limit : Nat) (t : TruthTable) : List Addition → List String
  | [] => []
  | a :: rest =>
    match t.perform limit a with
    | (.ok _, t) => a.expression :: t.added limit rest
    | (.error _, t) => t.added limit rest

end TruthTable

end BoolCalc
