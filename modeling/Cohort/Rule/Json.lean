import Cohort.Rule
import Cohort.Json.Shape

/-!
# Rules as JSON

The JSON forms of rules, drafts and patches, and of their members.
-/

namespace Cohort

/-- Reads an identifier. -/
def RuleId.ofJson? (j : Json) : Option RuleId := (Json.unsigned? 64 j).map RuleId.ofNat

/-- The JSON form of an identifier. -/
def RuleId.toJson (id : RuleId) : Json := .int id.toNat

/-- Reads the exact name of a schedule. -/
def Schedule.ofJson? (j : Json) : Option Schedule := (Json.unitVariant? j).bind Schedule.ofName?

/-- The JSON form of a schedule. -/
def Schedule.toJson (s : Schedule) : Json := .text s.name

/-- Reads the exact name of an operation. -/
def SetOperation.ofJson? (j : Json) : Option SetOperation :=
  (Json.unitVariant? j).bind SetOperation.ofName?

/-- The JSON form of an operation. -/
def SetOperation.toJson (o : SetOperation) : Json := .text o.name

/-- Reads an instant. -/
def Instant.ofJson? (j : Json) : Option Instant := j.text?.bind Instant.parse?

namespace Composition

/-- Reads a composition. -/
def ofJson? (j : Json) : Option Composition := do
  let shape ← j.shape? ["dependencies", "operation"]
  let dependencies ← shape.required "dependencies" (Json.listOf? RuleId.ofJson?)
  let operation ← shape.required "operation" SetOperation.ofJson?
  return ⟨dependencies, operation⟩

/-- The JSON form of a composition. -/
def toJson (c : Composition) : Json :=
  .object [("dependencies", .list (c.dependencies.map RuleId.toJson)),
    ("operation", c.operation.toJson)]

end Composition

/-- The JSON form of a list of conditions. -/
def Condition.listToJson (cs : List Condition) : Json := .list (cs.map Condition.toJson)

namespace RuleDraft

/-- Reads a draft. -/
def ofJson? (j : Json) : Option RuleDraft := do
  let shape ← j.shape? ["name", "description", "conditions", "schedule", "active", "composition"]
  let name ← shape.required "name" Json.text?
  let description ← shape.optionalDefault "description" Json.text?
  let conditions ← shape.defaulted "conditions" [] (Json.listOf? Condition.read?)
  let schedule ← shape.defaulted "schedule" .daily Schedule.ofJson?
  let active ← shape.defaulted "active" true Json.bool?
  let composition ← shape.optionalDefault "composition" Composition.ofJson?
  return ⟨name, description, conditions, schedule, active, composition⟩

/-- The JSON form of a draft. -/
def toJson (d : RuleDraft) : Json :=
  .object [("name", .text d.name), ("description", Json.ofOption .text d.description),
    ("conditions", Condition.listToJson d.conditions), ("schedule", d.schedule.toJson),
    ("active", .bool d.active), ("composition", Json.ofOption Composition.toJson d.composition)]

end RuleDraft

namespace RulePatch

/-- Reads a patch. -/
def ofJson? (j : Json) : Option RulePatch := do
  let shape ← j.shape? ["name", "description", "conditions", "schedule", "active"]
  let name ← shape.optionalDefault "name" Json.text?
  let description ← shape.optionalDefault "description" Json.text?
  let conditions ← shape.optionalDefault "conditions" (Json.listOf? Condition.read?)
  let schedule ← shape.optionalDefault "schedule" Schedule.ofJson?
  let active ← shape.optionalDefault "active" Json.bool?
  return ⟨name, description, conditions, schedule, active⟩

end RulePatch

end Cohort
