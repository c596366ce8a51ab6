import Cohort.Query.Compile
import Cohort.Json.Parser

/-!
# Queries as JSON

The JSON form of queries and of the warnings about dropped conditions. A stored
segment keeps its query in this form.

## Main definitions

* `Query.toJson`, `Query.ofJson?` — the JSON form of a query
* `Warning.toJson` — the JSON form of a warning
-/

namespace Cohort

namespace Literal

/-- A constant with its kind. -/
def toJson : Literal → Json
  | .number x => .object [("type", .text "number"), ("value", .float x)]
  | .date d => .object [("type", .text "date"), ("value", .text d.text)]
  | .text s => .object [("type", .text "text"), ("value", .text s)]

/-- Any number as a double. -/
def readNumber? : Json → Option Float
  | .int i => some (Decimal.ofWhole i)
  | .float x => some x
  | _ => none

/-- The names of the members of a constant. -/
def memberNames : List String := ["type", "value"]

/-- What is read of the text of a constant. -/
def outline : Json.Outline := .plain memberNames

/-- Reads a constant. Names stand as `name` reads them. -/
def readWith (name : Json → Option String) (j : Json) : Option Literal := do
  let shape ← j.shape? memberNames
  let kind ← shape.required "type" name
  let value ← shape.required "value" some
  if kind = "number" then (readNumber? value).map .number
  else if kind = "date" then (value.text?.bind Date.parseLoose?).map .date
  else if kind = "text" then value.text?.map .text
  else none

end Literal

namespace Operand

/-- The JSON form of what a field is compared with. -/
def toJson : Operand → Json
  | .scalar l => .object [("scalar", l.toJson)]
  | .list ls => .object [("list", .list (ls.map Literal.toJson))]
  | .range low high => .object [("range", .list [low.toJson, high.toJson])]

/-- What is read of the text of an operand. -/
def outline : Json.Outline :=
  .choice [("scalar", Literal.outline), ("list", .items Literal.outline),
    ("range", .items Literal.outline)]

/-- Reads what a field is compared with. Names stand as `name` reads them. -/
def readWith (name : Json → Option String) (j : Json) : Option Operand :=
  let literal? : Json → Option Literal := Literal.readWith name
  match Json.variant? j with
  | some (kind, some contents) =>
    if kind = "scalar" then (literal? contents).map .scalar
    else if kind = "list" then (Json.listOf? literal? contents).map .list
    else if kind = "range" then
      match contents with
      | .list [low, high] => do
        let low ← literal? low
        let high ← literal? high
        return .range low high
      | _ => none
    else none
  | _ => none

end Operand

/-- Reads the exact name of a field. -/
def Field.ofJson? (j : Json) : Option Field := (Json.unitVariant? j).bind Field.ofName?

/-- Reads the exact symbol of an operator. -/
def Operator.ofJson? (j : Json) : Option Operator := (Json.unitVariant? j).bind Operator.ofSymbol?

namespace Predicate

/-- The JSON form of a test. -/
def toJson (p : Predicate) : Json :=
  .object [("field", .text p.field.name), ("operator", .text p.operator.symbol),
    ("operand", p.operand.toJson)]

/-- The names of the members of a test. -/
def memberNames : List String := ["field", "operator", "operand"]

/-- What is read of the text of a test. -/
def outline : Json.Outline :=
  .record [("field", .whole), ("operator", .whole), ("operand", Operand.outline)]

/-- Reads a test. Names stand as `name` reads them. -/
def readWith (name : Json → Option String) (j : Json) : Option Predicate := do
  let shape ← j.shape? memberNames
  let field ← shape.required "field" fun j => (name j).bind Field.ofName?
  let operator ← shape.required "operator" fun j => (name j).bind Operator.ofSymbol?
  let operand ← shape.required "operand" (Operand.readWith name)
  return ⟨field, operator, operand⟩

/-- Reads a test. -/
def ofJson? (j : Json) : Option Predicate := readWith Json.unitVariant? j

end Predicate

namespace Query

/-- The JSON form of a query. -/
def toJson (q : Query) : Json :=
  .object [("sql", .text q.sql), ("filters", .list (q.filters.map Predicate.toJson)),
    ("having", .list (q.having.map Predicate.toJson))]

/-- The names of the members of a query. -/
def memberNames : List String := ["sql", "filters", "having"]

/-- What is read of the text of a query. -/
def outline : Json.Outline :=
  .record [("sql", .whole), ("filters", .items Predicate.outline),
    ("having", .items Predicate.outline)]

/-- Reads a query. Names stand as `name` reads them. -/
def readWith (name : Json → Option String) (j : Json) : Option Query := do
  let shape ← j.shape? memberNames
  let sql ← shape.required "sql" Json.text?
  let filters ← shape.required "filters" (Json.listOf? (Predicate.readWith name))
  let having ← shape.required "having" (Json.listOf? (Predicate.readWith name))
  return ⟨sql, filters, having⟩

/-- Reads a query. -/
def ofJson? (j : Json) : Option Query := readWith Json.unitVariant? j

/-- The JSON text of a query. -/
def planText (q : Query) : String := q.toJson.render

/-- The query that a JSON text stands for. -/
def ofPlanText? (s : String) : Option Query := (Json.parseOutline? outline s).bind ofJson?

end Query

namespace Rejection

/-- The name of a rejection. -/
def kind : Rejection → String
  | .missingField => "missing_field"
  | .missingOperator => "missing_operator"
  | .missingValue => "missing_value"
  | .unknownField _ => "unknown_field"
  | .unknownOperator _ => "unknown_operator"
  | .operatorNotAllowed .. => "operator_not_allowed"
  | .emptyList _ => "empty_list"
  | .missingUpperBound => "missing_upper_bound"
  | .notAList _ => "invalid_value"
  | .badLiteral _ => "invalid_value"

/-- What a rejection says beyond its name. -/
def contents? : Rejection → Option Json
  | .missingField => none
  | .missingOperator => none
  | .missingValue => none
  | .unknownField name => some (.text name)
  | .unknownOperator name => some (.text name)
  | .operatorNotAllowed field operator =>
    some (.object [("field", .text field.name), ("operator", .text operator.symbol)])
  | .emptyList operator => some (.text operator.symbol)
  | .missingUpperBound => none
  | .notAList operator => some (.text (detail (.notAList operator)))
  | .badLiteral value => some (.text (detail (.badLiteral value)))

/-- The JSON form of a rejection. -/
def toJson (r : Rejection) : Json :=
  Json.ofPresent [("kind", some (.text r.kind)), ("detail", r.contents?)]

end Rejection

/-- The JSON form of a warning. -/
def Warning.toJson (w : Warning) : Json :=
  .object [("index", .int w.index), ("condition", w.condition.toJson), ("reason", w.reason.toJson)]

end Cohort
