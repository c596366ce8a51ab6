import Cohort.Assoc
import Cohort.Condition.Input
import Cohort.Json.Outline
import Cohort.Rule.Json

/-!
# Rule files

A file of rules is a list of entries. An entry may combine the segments of entries
before it, which it calls by name.

## Main definitions

* `RuleEntry` — an entry of a rule file
* `RuleEntry.draft?` — the rule that an entry stands for
-/

namespace Cohort

/-- The combination of earlier entries. -/
structure Combination where
  operation : SetOperation
  rules : List String
  deriving DecidableEq, Repr

/-- The names of the members of a combination. -/
def Combination.memberNames : List String := ["operation", "rules"]

/-- Reads a combination. -/
def Combination.ofJson? (j : Json) : Option Combination := do
  let shape ← j.shape? memberNames
  let operation ← shape.required "operation" SetOperation.ofJson?
  let rules ← shape.required "rules" (Json.listOf? Json.text?)
  return ⟨operation, rules⟩

/-- An entry of a rule file. -/
structure RuleEntry where
  name : String
  description : Option String := none
  conditions : ConditionInput := .list []
  schedule : Schedule := .daily
  active : Bool := true
  combine : Option Combination := none

namespace RuleEntry

/-- The names of the members of an entry. -/
def memberNames : List String :=
  ["name", "description", "conditions", "schedule", "active", "combine"]

/-- What is read of the text of an entry. -/
def outline : Json.Outline :=
  .record (memberNames.map fun name =>
    (name, if name = "combine" then .plain Combination.memberNames else .whole))

/-- Reads an entry. -/
def ofJson? (j : Json) : Option RuleEntry := do
  let shape ← j.shape? memberNames
  let name ← shape.required "name" Json.text?
  let description ← shape.optionalDefault "description" Json.text?
  let conditions ← shape.defaulted "conditions" (.list []) ConditionInput.read?
  let schedule ← shape.defaulted "schedule" .daily Schedule.ofJson?
  let active ← shape.defaulted "active" true Json.bool?
  let combine ← shape.optionalDefault "combine" Combination.ofJson?
  return ⟨name, description, conditions, schedule, active, combine⟩

/-- The identifiers of the rules that a combination calls, or the first name that is not known. -/
def resolve (ids : List (String × RuleId)) : List String → Except String (List RuleId)
  | [] => .ok []
  | name :: rest =>
    match Assoc.get? name ids with
    | none => .error name
    | some id => (resolve ids rest).map fun found => id :: found

/-- The rule that an entry stands for, or the first name in it that is not known. -/
def draft (e : RuleEntry) (ids : List (String × RuleId)) : Except String RuleDraft := do
  let composition ←
    match e.combine with
    | none => pure none
    | some c => pure (some (Composition.mk (← resolve ids c.rules) c.operation))
  return {
    name := e.name
    description := e.description
    conditions := e.conditions.normalize.conditions
    schedule := e.schedule
    active := e.active
    composition }

end RuleEntry

end Cohort
