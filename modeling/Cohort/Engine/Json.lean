import Cohort.Engine.Evaluate
import Cohort.Query.Json

/-!
# Transactions and rows as JSON
-/

namespace Cohort

/-- The names of the members of a transaction. -/
def Transaction.memberNames : List String :=
  ["user_id", "amount", "transaction_date", "city_tier", "transaction_type", "category"]

/-- What is read of a text of transactions. -/
def Transaction.outline : Json.Outline := .plain memberNames

/-- Reads a transaction. -/
def Transaction.ofJson? (j : Json) : Option Transaction := do
  let shape ← j.shape? memberNames
  let user ← shape.optionalDefault "user_id" Json.text?
  let amount ← shape.required "amount" Literal.readNumber?
  let date ← shape.required "transaction_date" fun j => j.text?.bind Date.parseLoose?
  let tier ← shape.required "city_tier" Json.signed64?
  let kind ← shape.required "transaction_type" Json.text?
  let category ← shape.optionalDefault "category" Json.text?
  return ⟨user, amount, date, tier, kind, category⟩

namespace UserRow

/-- The JSON form of a row. -/
def toJson (r : UserRow) : Json :=
  .object [("user_id", Json.ofOption .text r.user), ("total_transactions", .int r.count),
    ("total_spent", .float r.spent), ("transaction_types", .text r.kinds)]

/-- Reads a row. -/
def ofJson? (j : Json) : Option UserRow := do
  let shape ← j.shape? ["user_id", "total_transactions", "total_spent", "transaction_types"]
  let user ← shape.optional "user_id" Json.text?
  let count ← shape.required "total_transactions" (Json.unsigned? 64)
  let spent ← shape.required "total_spent" Literal.readNumber?
  let kinds ← shape.required "transaction_types" Json.text?
  return ⟨user, count, spent, kinds⟩

end UserRow

end Cohort
