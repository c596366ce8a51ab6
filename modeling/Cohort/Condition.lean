import Cohort.Field
import Cohort.Json.Printer
import Cohort.Json.Shape

/-!
# Conditions

A condition is one line of a rule as people submit it: a field, an operator and one
or two values, each of which may be missing or make no sense. Whether it does is
decided when a query is compiled.

## Main definitions

* `Condition` — a submitted condition
* `Condition.text` — its one-line description
* `Condition.read?`, `Condition.toJson` — its JSON form
-/

namespace Cohort

/-- A condition as submitted. -/
structure Condition where
  field : Option String
  operator : Option String
  value : Option Json
  upper : Option Json
  deriving DecidableEq, Repr, Inhabited

namespace Condition

/-- A condition with one value. -/
def of (field operator : String) (value : Json) : Condition :=
  ⟨some field, some operator, some value, none⟩

/-- A condition on the range between two values. -/
def between (field : String) (low high : Json) : Condition :=
  ⟨some field, some Operator.between.symbol, some low, some high⟩

/-- The field that the condition names. -/
def parsedField? (c : Condition) : Option Field := c.field.bind Field.parse?

/-- The operator that the condition names. -/
def parsedOperator? (c : Condition) : Option Operator := c.operator.bind Operator.parse?

/-- The text of a value that may be missing. -/
def valueText (value : Option Json) : String :=
  match value with
  | some j => j.render
  | none => ""

/-- A one-line description, with a question mark for a missing field or operator. -/
def text (c : Condition) : String :=
  c.field.getD "?" ++ " " ++ c.operator.getD "?" ++ " " ++ valueText c.value ++
    match c.upper with
    | some j => " AND " ++ j.render
    | none => ""

/-- The names of the members of a condition. -/
def memberNames : List String := ["field", "operator", "value", "value2"]

/-- Reads a condition. Every member may be missing. -/
def read? (j : Json) : Option Condition := do
  let shape ← j.shape? memberNames
  let field ← shape.optionalDefault "field" Json.text?
  let operator ← shape.optionalDefault "operator" Json.text?
  let value ← shape.optionalDefault "value" fun j => some j.tidy
  let upper ← shape.optionalDefault "value2" fun j => some j.tidy
  return ⟨field, operator, value, upper⟩

/-- The members of a condition that are present. -/
def toJson (c : Condition) : Json :=
  Json.ofPresent
    [("field", c.field.map .text), ("operator", c.operator.map .text), ("value", c.value),
      ("value2", c.upper)]

end Condition

end Cohort
