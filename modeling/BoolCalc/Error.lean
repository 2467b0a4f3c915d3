import BoolCalc.Evaluate.Error
import BoolCalc.Parse.Error

/-!
# Errors

Everything that can go wrong with an expression, from its source to its table.

## Main definitions

* `TableError`: Why a table cannot be built or has no answer.
* `Error`: An error of any stage.
-/

namespace BoolCalc

/-- Why a table cannot be built or has no answer. -/
inductive TableError
  | tooManyVariables (count : Nat) (limit : Int)
  | duplicateNames (names : List String)
  | unknownFunction (expression : String)
  deriving DecidableEq, Repr

/-- The text of an error. -/
def TableError.message : TableError → String
  | tooManyVariables count limit =>
    "Too many variables (" ++ toString count ++ "); the limit is " ++ toString limit
  | duplicateNames names =>
    "Duplicate variable names: [" ++ Text.joinWith ", " (names.map Text.quoted) ++ "]"
  | unknownFunction expression => "Function not in table: " ++ expression

/-- An error of any stage. -/
inductive Error
  | parse (e : ParseError)
  | eval (e : EvalError)
  | table (e : TableError)
  deriving Repr

/-- The text of an error. -/
def Error.message : Error → String
  | parse e => e.message
  | eval e => e.message
  | table e => e.message

end BoolCalc
