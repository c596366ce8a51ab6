import Cohort.Query.Accept
import Cohort.Settings
import Cohort.Failure
import Cohort.Sorting

/-!
# Compiling conditions

A list of conditions becomes one query. Conditions that make no sense are dropped
with a warning and do not affect the others. The tests of a query stand in the order
of their texts and no text occurs twice, so that the order and repetition of
conditions do not matter.

## Main definitions

* `View` — the source tables, at least one
* `View.compile` — the query of a list of conditions, and the warnings
* `canonical` — predicates in the order of their texts, each text once
-/

namespace Cohort

/-- The tables that together hold all transactions. -/
structure View where
  sources : List Source
  sources_ne_nil : sources ≠ []

/-- A condition that was dropped, with its place in the list. -/
structure Warning where
  index : Nat
  condition : Condition
  reason : Rejection
  deriving DecidableEq, Repr

/-- A query and the conditions that are not in it. -/
structure Compilation where
  query : Query
  warnings : List Warning
  deriving DecidableEq, Repr

/-- Predicates in the order of their texts; of those with one text the first stays. -/
def canonical (predicates : List Predicate) : List Predicate :=
  (sortBy (fun a b => !decide (b.render < a.render)) predicates).eraseRepsBy
    fun a b => a.render == b.render

/-- The accepted predicates of some conditions, in their order. -/
def acceptedOf (conditions : List Condition) : List Predicate :=
  conditions.filterMap fun c => c.accept.toOption

/-- The rejected ones among numbered conditions. -/
def rejectedFrom : Nat → List Condition → List Warning
  | _, [] => []
  | index, c :: rest =>
    match c.accept with
    | .ok _ => rejectedFrom (index + 1) rest
    | .error reason => ⟨index, c, reason⟩ :: rejectedFrom (index + 1) rest

namespace View

/-- The view of some sources. A view without sources is refused. -/
def ofSources (sources : List Source) : Except Failure View :=
  match sources with
  | [] => .error .noSources
  | source :: rest => .ok ⟨source :: rest, by simp⟩

/-- The view of the built-in sources. -/
def standard : View := ⟨({} : Settings.Sources).sources, by simp⟩

/-- The part of the view that one table holds. -/
def sourceText (s : Source) : String :=
  "SELECT user_id, amount, transaction_date, category, city_tier, " ++ Text.quote s.kind ++
    " AS transaction_type FROM " ++ s.table

/-- The SQL text of the view. -/
def text (v : View) : String := " UNION ALL ".intercalate (v.sources.map sourceText)

/-- The SQL text that selects the users who pass the tests. -/
def sql (v : View) (filters having : List Predicate) : String :=
  "WITH all_transactions AS (" ++ v.text ++
    "), filtered_transactions AS (SELECT * FROM all_transactions WHERE " ++
    (if filters.isEmpty then "1=1" else " AND ".intercalate (filters.map Predicate.render)) ++
    ") SELECT user_id, COUNT(*) AS total_transactions, SUM(amount) AS total_spent, " ++
    "GROUP_CONCAT(DISTINCT transaction_type) AS transaction_types " ++
    "FROM filtered_transactions GROUP BY user_id" ++
    if having.isEmpty then ""
    else " HAVING " ++ " AND ".intercalate (having.map Predicate.render)

/-- The query of a list of conditions, and the conditions that were dropped. -/
def compile (v : View) (conditions : List Condition) : Compilation :=
  let accepted := acceptedOf conditions
  let filters := canonical (accepted.filter fun p => p.field.kind == .raw)
  let having := canonical (accepted.filter fun p => p.field.kind == .aggregate)
  { query := ⟨v.sql filters having, filters, having⟩
    warnings := rejectedFrom 0 conditions }

end View

end Cohort
