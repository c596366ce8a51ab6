import Cohort.Condition

/-!
# Submitted conditions

Conditions are submitted as a list, or in an older form as one flat object with a
member per filter. Both are brought into the form of a list.

## Main definitions

* `ConditionInput` — either form
* `ConditionInput.normalize` — the list of conditions, and the keys that mean nothing
-/

namespace Cohort

/-- Conditions as submitted. The members of the flat form have distinct ascending keys. -/
inductive ConditionInput where
  | list (conditions : List Condition)
  | flat (members : List (String × Json))
  deriving Repr

/-- Conditions in the form of a list. -/
structure Normalized where
  conditions : List Condition
  /-- The keys of the flat form that are not understood. -/
  ignoredKeys : List String
  deriving DecidableEq, Repr

namespace ConditionInput

/-- What one member of the flat form contributes. -/
inductive Contribution where
  | condition (c : Condition)
  | nothing
  | unknown
  deriving Repr

/-- A condition on a field of the vocabulary. -/
def onField (field : Field) (operator : Operator) (value : Json) : Contribution :=
  .condition (Condition.of field.name operator.symbol value)

/-- The contribution of a member. `amountOperator` is the text given for comparing amounts. -/
def contribution (amountOperator : String) (key : String) (value : Json) : Contribution :=
  if value = .null then .nothing
  else if key = "start_date" then onField .transactionDate .ge value
  else if key = "end_date" then onField .transactionDate .le value
  else if key = "amount" then
    .condition (Condition.of Field.amount.name amountOperator value)
  else if key = "amount_operator" then .nothing
  else if key = "city_tier" then onField .cityTier .eq value
  else if key = "city_tier_in" then
    match value with
    | .list (_ :: _) => onField .cityTier .isIn value
    | _ => .nothing
  else if key = "transaction_type" then
    match value with
    | .text kind =>
      if Text.sameLetters kind "all" then .nothing
      else onField .transactionType .eq (.text (Text.upper kind))
    | _ => .nothing
  else if key = "min_transactions" then onField .transactionCount .ge value
  else if key = "total_spend_gt" then onField .totalSpend .gt value
  else if key = "total_spend_lt" then onField .totalSpend .lt value
  else if key = "transaction_count_gt" then onField .transactionCount .gt value
  else if key = "transaction_count_lt" then onField .transactionCount .lt value
  else .unknown

/-- The text given for comparing amounts. -/
def amountOperator (members : List (String × Json)) : String :=
  ((members.lookup "amount_operator").bind Json.text?).getD Operator.eq.symbol

/-- The conditions of the flat form, in the order of its keys. -/
def normalizeFlat (members : List (String × Json)) : Normalized :=
  let operator := amountOperator members
  { conditions := members.filterMap fun m =>
      match contribution operator m.1 m.2 with
      | .condition c => some c
      | _ => none
    ignoredKeys := members.filterMap fun m =>
      match contribution operator m.1 m.2 with
      | .unknown => some m.1
      | _ => none }

/-- Either form as a list of conditions. -/
def normalize : ConditionInput → Normalized
  | .list conditions => ⟨conditions, []⟩
  | .flat members => normalizeFlat members

/-- Reads either form: a list whose items all are conditions, or any object. -/
def read? (j : Json) : Option ConditionInput :=
  match j with
  | .list items => (items.mapM Condition.read?).map .list
  | .object members => some (.flat (Json.ofMembers (Json.tidyMembers members)))
  | _ => none

end ConditionInput

end Cohort
