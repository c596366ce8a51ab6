import Cohort.Text.Blank
import Cohort.Text.Letter

/-!
# Fields and operators

What a condition can ask about and how it can ask. Raw fields belong to single
transactions, aggregate fields to all transactions of one user.

## Main definitions

* `Field`, `Operator` — the vocabulary of conditions
* `Field.parse?`, `Operator.parse?` — reading it without regard to case and blanks
* `Field.allows` — which operators a field understands
-/

namespace Cohort

/-- Whether a field belongs to a transaction or to the group of a user's transactions. -/
inductive FieldKind where
  | raw
  | aggregate
  deriving DecidableEq, Repr

/-- What the values of a field are. -/
inductive ValueKind where
  | numeric
  | date
  | text
  deriving DecidableEq, Repr

/-- A property that conditions can test. -/
inductive Field where
  | amount
  | cityTier
  | transactionDate
  | transactionType
  | totalSpend
  | transactionCount
  deriving DecidableEq, Repr, Inhabited

/-- How a condition compares a field with its values. -/
inductive Operator where
  | gt
  | lt
  | eq
  | ge
  | le
  | ne
  | isIn
  | notIn
  | between
  deriving DecidableEq, Repr, Inhabited

namespace Operator

/-- All operators. -/
def all : List Operator := [.gt, .lt, .eq, .ge, .le, .ne, .isIn, .notIn, .between]

/-- The written form of an operator. -/
def symbol : Operator → String
  | .gt => ">"
  | .lt => "<"
  | .eq => "="
  | .ge => ">="
  | .le => "<="
  | .ne => "!="
  | .isIn => "IN"
  | .notIn => "NOT IN"
  | .between => "BETWEEN"

/-- The operator is followed by a list of values. -/
def takesList : Operator → Bool
  | .isIn | .notIn => true
  | _ => false

/-- The operator with exactly this symbol. -/
def ofSymbol? (s : String) : Option Operator := all.find? fun operator => operator.symbol == s

/-- The words of a text with single spaces between them, in capitals. -/
def normalForm (s : String) : String := Text.upper (" ".intercalate (Text.words s))

/-- Reads an operator without regard to case and the number of blanks. -/
def parse? (s : String) : Option Operator :=
  let wanted := normalForm s
  if wanted == "==" then some .eq
  else if wanted == "<>" then some .ne
  else ofSymbol? wanted

end Operator

namespace Field

/-- All fields. -/
def all : List Field :=
  [.amount, .cityTier, .transactionDate, .transactionType, .totalSpend, .transactionCount]

/-- The name of a field. -/
def name : Field → String
  | .amount => "amount"
  | .cityTier => "city_tier"
  | .transactionDate => "transaction_date"
  | .transactionType => "transaction_type"
  | .totalSpend => "total_spend"
  | .transactionCount => "transaction_count"

/-- Totals and counts are taken over the transactions of a user. -/
def kind : Field → FieldKind
  | .totalSpend | .transactionCount => .aggregate
  | _ => .raw

/-- What the values of the field are. -/
def valueKind : Field → ValueKind
  | .transactionDate => .date
  | .transactionType => .text
  | _ => .numeric

/-- The expression for the field in a query. -/
def expression : Field → String
  | .totalSpend => "SUM(amount)"
  | .transactionCount => "COUNT(*)"
  | field => field.name

/-- Which operators a field understands. -/
def allows : Field → Operator → Bool
  | .amount, _ => true
  | .cityTier, _ => true
  | .transactionType, operator => operator == .eq || operator == .ne || operator.takesList
  | _, operator => !operator.takesList

/-- The field with exactly this name. -/
def ofName? (s : String) : Option Field := all.find? fun field => field.name == s

/-- The form of a field name in which names are compared. -/
def normalForm (s : String) : String := Text.lower (Text.trim s)

/-- Reads a field without regard to case and surrounding blanks. -/
def parse? (s : String) : Option Field := ofName? (normalForm s)

end Field

end Cohort
