import Cohort.Field
import Cohort.Calendar.Date
import Cohort.Decimal.Written
import Cohort.Text.Quoted

/-!
# Queries

A query selects users by predicates on their transactions and on the totals over
these transactions. It is kept in two forms: as lists of predicates, and as SQL.

## Main definitions

* `Literal`, `Operand`, `Predicate`, `Query` — the typed plan
* `Literal.render`, `Predicate.render` — its SQL text
* `Query.isUnfiltered` — the query selects every user
-/

namespace Cohort

/-- A constant of a query. -/
inductive Literal where
  | number (x : Float)
  | date (d : Date)
  | text (s : String)
  deriving DecidableEq, Repr

/-- The SQL text of a constant. -/
def Literal.render : Literal → String
  | .number x => Decimal.writeNumber x
  | .date d => Text.quote d.text
  | .text s => Text.quote s

/-- What a field is compared with. -/
inductive Operand where
  | scalar (l : Literal)
  | list (ls : List Literal)
  | range (low high : Literal)
  deriving DecidableEq, Repr

/-- One test of a query. -/
structure Predicate where
  field : Field
  operator : Operator
  operand : Operand
  deriving DecidableEq, Repr

/-- The SQL text of a test. -/
def Predicate.render (p : Predicate) : String :=
  p.field.expression ++
    match p.operand with
    | .scalar l => " " ++ p.operator.symbol ++ " " ++ l.render
    | .list ls =>
      " " ++ p.operator.symbol ++ " (" ++ ", ".intercalate (ls.map Literal.render) ++ ")"
    | .range low high => " BETWEEN " ++ low.render ++ " AND " ++ high.render

/-- A query over all transactions. The filters test single transactions, the tests in `having`
the transactions of a user together. -/
structure Query where
  sql : String
  filters : List Predicate
  having : List Predicate
  deriving DecidableEq, Repr

/-- The query has no tests at all. -/
def Query.isUnfiltered (q : Query) : Bool := q.filters.isEmpty && q.having.isEmpty

end Cohort
