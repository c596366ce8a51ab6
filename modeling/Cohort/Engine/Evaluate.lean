import Cohort.Engine.Dataset
import Cohort.Query
import Cohort.Decimal.Reader

/-!
# Evaluating queries

A query keeps the transactions that pass its filters, groups them by user, and keeps
the users whose totals pass its further tests.

## Main definitions

* `Transaction` — one transaction of a user
* `Predicate.holds` — a test on a value
* `Query.evaluate` — the rows that a query selects
-/

namespace Cohort

/-- One transaction. The user may be unknown. -/
structure Transaction where
  user : Option String
  amount : Float
  date : Date
  cityTier : Int
  kind : String
  category : Option String
  deriving DecidableEq, Repr

/-- The order of two numbers, unless one of them is undefined. -/
def compareNumbers (a b : Float) : Option Ordering :=
  if a < b then some .lt
  else if a == b then some .eq
  else if b < a then some .gt
  else none

/-- The order of two constants of one kind. -/
def Literal.compare? : Literal → Literal → Option Ordering
  | .number a, .number b => compareNumbers a b
  | .date a, .date b => some (Date.compare a b)
  | .text a, .text b => some (compare a b)
  | _, _ => none

/-- The order satisfies an operator that takes one value. -/
def Operator.accepts : Operator → Ordering → Bool
  | .gt, o => o == .gt
  | .lt, o => o == .lt
  | .eq, o => o == .eq
  | .ge, o => o != .lt
  | .le, o => o != .gt
  | .ne, o => o != .eq
  | _, _ => false

/-- The test holds of a value. Values that cannot be compared pass no test. -/
def Predicate.holds (p : Predicate) (actual : Literal) : Bool :=
  match p.operand, p.operator with
  | .scalar expected, operator => (actual.compare? expected).any operator.accepts
  | .list items, .isIn => items.any fun item => actual.compare? item == some .eq
  | .list items, .notIn =>
    items.all fun item => (actual.compare? item).any fun o => o != .eq
  | .range low high, .between =>
    (actual.compare? low).any (fun o => o != .lt) && (actual.compare? high).any fun o => o != .gt
  | _, _ => false

/-- The value of a raw field. -/
def Transaction.value? (t : Transaction) : Field → Option Literal
  | .amount => some (.number t.amount)
  | .cityTier => some (.number (Decimal.ofWhole t.cityTier))
  | .transactionDate => some (.date t.date)
  | .transactionType => some (.text t.kind)
  | _ => none

/-- The transactions of one user taken together. -/
structure Group where
  count : Nat := 0
  spent : Float := 0.0
  /-- The types of the transactions in ascending order, each once. -/
  kinds : List String := []
  deriving DecidableEq, Repr

namespace Group

/-- The value of an aggregate field. -/
def value? (g : Group) : Field → Option Literal
  | .totalSpend => some (.number g.spent)
  | .transactionCount => some (.number (Decimal.ofWhole g.count))
  | _ => none

/-- Puts a text into an ascending list of distinct ones. -/
def insertKind (kind : String) : List String → List String
  | [] => [kind]
  | k :: rest =>
    if kind < k then kind :: k :: rest
    else if kind = k then k :: rest
    else k :: insertKind kind rest

/-- The group with one more transaction. -/
def add (g : Group) (t : Transaction) : Group :=
  ⟨g.count + 1, g.spent + t.amount, insertKind t.kind g.kinds⟩

/-- The row of a group. -/
def row (user : Option String) (g : Group) : UserRow :=
  ⟨user, g.count, g.spent, ",".intercalate g.kinds⟩

end Group

/-- The unknown user comes first, the others in the order of their names. -/
def userBefore : Option String → Option String → Bool
  | none, none => false
  | none, some _ => true
  | some _, none => false
  | some a, some b => decide (a < b)

/-- Adds a transaction to the group of its user, in groups ordered by user. -/
def addToGroups (t : Transaction) : List (Option String × Group) → List (Option String × Group)
  | [] => [(t.user, ({} : Group).add t)]
  | (user, g) :: rest =>
    if userBefore t.user user then (t.user, ({} : Group).add t) :: (user, g) :: rest
    else if t.user = user then (user, g.add t) :: rest
    else (user, g) :: addToGroups t rest

namespace Query

/-- The transaction passes all filters. -/
def keeps (q : Query) (t : Transaction) : Bool :=
  q.filters.all fun p => (t.value? p.field).any p.holds

/-- The group passes all further tests. -/
def keepsGroup (q : Query) (g : Group) : Bool :=
  q.having.all fun p => (g.value? p.field).any p.holds

/-- The kept transactions by user, in the order of users. -/
def groups (q : Query) (ts : List Transaction) : List (Option String × Group) :=
  (ts.filter q.keeps).foldl (fun groups t => addToGroups t groups) []

/-- The rows that a query selects. -/
def evaluate (q : Query) (ts : List Transaction) : Dataset :=
  ((q.groups ts).filter fun g => q.keepsGroup g.2).map fun g => Group.row g.1 g.2

end Query

end Cohort
