/-!
# Issues

What validation finds wrong with data: where, and of which kind.

A field is named by its path from the root of the data, and a kind by a short
code that programs can act upon. The wording that people read is left to
whoever shows the issue.

## Main definitions

* `IssueCode`: The kinds of issue.
* `Issue`: A kind of issue at a place.
-/

namespace BoolCalc

/-- A kind of issue. -/
inductive IssueCode
  | missing
  | notInEnumeration
  | notText
  | invalidValue
  | notTable
  | truthUnreadable
  | notTruth
  | notInteger
  | integerUnreadable
  | integerTooLarge
  | hasFraction
  | notFinite
  | tooSmall
  | tooLarge
  deriving DecidableEq, Repr

/-- The code an issue is reported by. -/
def IssueCode.code : IssueCode → String
  | missing => "missing"
  | notInEnumeration => "enum"
  | notText => "string_type"
  | invalidValue => "value_error"
  | notTable => "model_type"
  | truthUnreadable => "bool_parsing"
  | notTruth => "bool_type"
  | notInteger => "int_type"
  | integerUnreadable => "int_parsing"
  | integerTooLarge => "int_parsing_size"
  | hasFraction => "int_from_float"
  | notFinite => "finite_number"
  | tooSmall => "greater_than_equal"
  | tooLarge => "less_than_equal"

/-- A kind of issue at a place. -/
structure Issue where
  /-- The names of the fields that lead to the place. -/
  path : List String
  /-- What is wrong there. -/
  kind : IssueCode
  deriving DecidableEq, Repr

end BoolCalc
