import BoolCalc.Numeric.Binary64

/-!
# TOML Values

The data a TOML document holds.

A table lists its fields in the order in which they were defined. A date or a
time keeps its text, since nothing here computes with it. `Fields.updateAt`
is the one operation that builds documents: it walks down a dotted key,
creating the tables that are not there yet, and changes the table at its end.
On the way a list of tables stands for its last member.

## Main definitions

* `Value`: A value of a document.
* `Fields`: The fields of a table.
* `Fields.updateAt`: Change the table at the end of a dotted key.
-/

namespace BoolCalc

namespace Toml

/-- A value of a document. -/
inductive Value
  | text (s : String)
  | integer (n : Int)
  | float (x : Binary64)
  | truth (b : Bool)
  | moment (s : String)
  | array (items : List Value)
  | table (fields : List (String × Value))
  deriving Repr, Inhabited

/-- The fields of a table, in the order in which they were defined. -/
abbrev Fields := List (String × Value)

/-- A dotted key. -/
abbrev Key := List String

namespace Fields

/-- The value of a field. -/
def get? (fields : Fields) (name : String) : Option Value :=
  (fields.find? fun field => field.1 == name).map Prod.snd

/-- Give a field a value; a new field is added at the end. -/
def set (fields : Fields) (name : String) (v : Value) : Fields :=
  if fields.any fun field => field.1 == name then
    fields.map fun field => if field.1 == name then (name, v) else field
  else fields ++ [(name, v)]

/-- Change the table at the end of a dotted key, creating tables on the way
    where there is nothing. There is no result when something on the way is
    not a table. A list stands for its last member if `enterLists` is set. -/
def updateAt (enterLists : Bool) (change : Fields → Option Fields) :
    Key → Fields → Option Fields
  | [], fields => change fields
  | name :: rest, fields =>
    match fields.get? name with
    | none => do
      let inner ← updateAt enterLists change rest []
      return fields.set name (.table inner)
    | some (.table inner) => do
      let inner ← updateAt enterLists change rest inner
      return fields.set name (.table inner)
    | some (.array items) =>
      match enterLists, items.getLast? with
      | true, some (.table inner) => do
        let inner ← updateAt enterLists change rest inner
        return fields.set name (.array (items.dropLast ++ [.table inner]))
      | _, _ => none
    | some _ => none

/-- Define a field that is not there yet. -/
def define (name : String) (v : Value) (fields : Fields) : Option Fields :=
  match fields.get? name with
  | none => some (fields.set name v)
  | some _ => none

/-- Add an empty table to the list of tables under a name, which is created if
    there is nothing. -/
def appendTable (name : String) (fields : Fields) : Option Fields :=
  match fields.get? name with
  | none => some (fields.set name (.array [.table []]))
  | some (.array items) => some (fields.set name (.array (items ++ [.table []])))
  | some _ => none

end Fields

end Toml

end BoolCalc
