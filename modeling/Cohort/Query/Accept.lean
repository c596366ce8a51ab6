import Cohort.Query
import Cohort.Condition
import Cohort.Calendar.Instant
import Cohort.Decimal.Reader

/-!
# Which conditions make sense

A condition becomes a predicate if its members are there, its field and operator are
known and go together, and its values are of the kind of the field. Otherwise the
condition is rejected with the first reason that applies.

## Main definitions

* `Rejection` — why a condition is dropped
* `Condition.accept` — the predicate of a condition, or the reason against it
-/

namespace Cohort

/-- Why a condition is dropped. -/
inductive Rejection where
  | missingField
  | missingOperator
  | missingValue
  | unknownField (name : String)
  | unknownOperator (name : String)
  | operatorNotAllowed (field : Field) (operator : Operator)
  | emptyList (operator : Operator)
  | missingUpperBound
  | notAList (operator : Operator)
  | badLiteral (value : Json)
  deriving DecidableEq, Repr

namespace Rejection

/-- What is wrong with a value. -/
def detail : Rejection → String
  | .notAList operator => operator.symbol ++ " expects a list"
  | .badLiteral value => value.render
  | _ => ""

/-- The text of a rejection. -/
def message : Rejection → String
  | .missingField => "condition has no field"
  | .missingOperator => "condition has no operator"
  | .missingValue => "condition has no value"
  | .unknownField name => "unknown field '" ++ name ++ "'"
  | .unknownOperator name => "unknown operator '" ++ name ++ "'"
  | .operatorNotAllowed field operator =>
    "operator " ++ operator.symbol ++ " is not allowed on field " ++ field.name
  | .emptyList operator => operator.symbol ++ " requires a non-empty list"
  | .missingUpperBound => "BETWEEN requires value2"
  | .notAList operator => "invalid value: " ++ detail (.notAList operator)
  | .badLiteral value => "invalid value: " ++ detail (.badLiteral value)

end Rejection

/-- The date that a text stands for: a date, or the date of an instant as it is written. -/
def Date.readText? (s : String) : Option Date :=
  let trimmed := Text.trim s
  (Date.parse? trimmed).orElse fun _ => Calendar.readOffsetDate? trimmed.toList

/-- The constant that a value stands for, if it is of the right kind. -/
def Literal.read? (kind : ValueKind) (value : Json) : Option Literal :=
  match kind with
  | .numeric =>
    match value with
    | .int i => some (.number (Decimal.ofWhole i))
    | .float x => some (.number x)
    | .text s => (Decimal.readFloat? (Text.trim s)).map .number
    | _ => none
  | .date => (value.text?.bind Date.readText?).map .date
  | .text => value.text?.map .text

namespace Condition

/-- The constant that a value stands for. -/
def literal (kind : ValueKind) (value : Json) : Except Rejection Literal :=
  match Literal.read? kind value with
  | some l => .ok l
  | none => .error (.badLiteral value)

/-- The constants that the items of a list stand for; the first bad item decides. -/
def literals (kind : ValueKind) : List Json → Except Rejection (List Literal)
  | [] => .ok []
  | j :: rest =>
    match literal kind j with
    | .error e => .error e
    | .ok l =>
      match literals kind rest with
      | .error e => .error e
      | .ok ls => .ok (l :: ls)

/-- What the field is compared with. -/
def operand (operator : Operator) (kind : ValueKind) (value : Json) (upper : Option Json) :
    Except Rejection Operand :=
  match operator with
  | .isIn | .notIn =>
    match value with
    | .list [] => .error (.emptyList operator)
    | .list items => (literals kind items).map .list
    | _ => .error (.notAList operator)
  | .between =>
    match upper with
    | none => .error .missingUpperBound
    | some high => do
      let low ← literal kind value
      let high ← literal kind high
      return .range low high
  | _ => (literal kind value).map .scalar

/-- A member that is there and not blank. -/
def present (member : Option String) (missing : Rejection) : Except Rejection String :=
  match member with
  | some s => if Text.isBlankText s then .error missing else .ok s
  | none => .error missing

/-- The predicate of a condition, or the first reason against it. -/
def accept (c : Condition) : Except Rejection Predicate := do
  let rawField ← present c.field .missingField
  let rawOperator ← present c.operator .missingOperator
  let value ← match c.value with
    | some j => .ok j
    | none => .error .missingValue
  let field ← match Field.parse? rawField with
    | some field => .ok field
    | none => .error (.unknownField rawField)
  let operator ← match Operator.parse? rawOperator with
    | some operator => .ok operator
    | none => .error (.unknownOperator rawOperator)
  if field.allows operator then
    let operand ← operand operator field.valueKind value c.upper
    return ⟨field, operator, operand⟩
  else .error (.operatorNotAllowed field operator)

end Condition

end Cohort
