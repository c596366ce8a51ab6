import Cohort.Condition
import Cohort.Schedule
import Cohort.SetOperation
import Cohort.RuleId

/-!
# Rules

A rule says which users belong to a segment: by conditions of its own, by combining
other segments, or both. A draft is a rule as it is submitted, and a patch names the
members of a rule that are to change.

## Main definitions

* `Rule` — a stored rule
* `RuleDraft`, `Composition` — a rule as submitted
* `RulePatch` — changes to a rule
-/

namespace Cohort

/-- A stored rule. -/
structure Rule where
  id : RuleId
  name : String
  description : Option String
  /-- The conditions that the rule tests itself. -/
  conditions : List Condition
  /-- All conditions that the rule stands for, those of its dependencies included. -/
  declared : List Condition
  dependencies : Option (List RuleId)
  operation : Option SetOperation
  active : Bool
  schedule : Schedule
  nextRunAt : Option Instant
  lastRunAt : Option Instant
  createdAt : Instant
  updatedAt : Instant
  deriving DecidableEq, Repr

/-- The rule combines other segments. -/
def Rule.isComposite (r : Rule) : Bool := r.dependencies.isSome

/-- A combination of segments that a draft asks for. -/
structure Composition where
  dependencies : List RuleId
  operation : SetOperation
  deriving DecidableEq, Repr

/-- A rule as submitted. Where it has a composition, its conditions narrow the combined
segments. -/
structure RuleDraft where
  name : String
  description : Option String := none
  conditions : List Condition := []
  schedule : Schedule := .daily
  active : Bool := true
  composition : Option Composition := none
  deriving DecidableEq, Repr

/-- Changes to a rule; members that are not there stay as they are. -/
structure RulePatch where
  name : Option String := none
  description : Option String := none
  conditions : Option (List Condition) := none
  schedule : Option Schedule := none
  active : Option Bool := none
  deriving DecidableEq, Repr

namespace RuleDraft

/-- Adds a condition. -/
def withCondition (d : RuleDraft) (c : Condition) : RuleDraft :=
  { d with conditions := d.conditions ++ [c] }

/-- Adds a condition on a field of the vocabulary. -/
def withTest (d : RuleDraft) (field : Field) (operator : Operator) (value : Json) : RuleDraft :=
  d.withCondition (Condition.of field.name operator.symbol value)

/-- Adds conditions. -/
def withConditions (d : RuleDraft) (cs : List Condition) : RuleDraft :=
  { d with conditions := d.conditions ++ cs }

/-- Asks for amounts above a bound. -/
def amountAbove (d : RuleDraft) (bound : Float) : RuleDraft := d.withTest .amount .gt (.float bound)

/-- Asks for amounts below a bound. -/
def amountBelow (d : RuleDraft) (bound : Float) : RuleDraft := d.withTest .amount .lt (.float bound)

/-- Asks for one city tier. -/
def inCityTier (d : RuleDraft) (tier : Nat) : RuleDraft := d.withTest .cityTier .eq (.int tier)

/-- Asks for one of some city tiers. -/
def inCityTiers (d : RuleDraft) (tiers : List Nat) : RuleDraft :=
  d.withTest .cityTier .isIn (.list (tiers.map fun tier : Nat => .int tier))

/-- Asks for one type of transactions. -/
def ofType (d : RuleDraft) (kind : String) : RuleDraft :=
  d.withTest .transactionType .eq (.text kind)

/-- Asks for transactions between two dates. -/
def betweenDates (d : RuleDraft) (first last : String) : RuleDraft :=
  d.withCondition (Condition.between Field.transactionDate.name (.text first) (.text last))

/-- Asks for a total above a bound. -/
def spendAbove (d : RuleDraft) (bound : Float) : RuleDraft :=
  d.withTest .totalSpend .gt (.float bound)

/-- Asks for at least so many transactions. -/
def countAtLeast (d : RuleDraft) (count : Nat) : RuleDraft :=
  d.withTest .transactionCount .ge (.int count)

/-- Combines other segments. -/
def combining (d : RuleDraft) (operation : SetOperation) (dependencies : List RuleId) : RuleDraft :=
  { d with composition := some ⟨dependencies, operation⟩ }

end RuleDraft

end Cohort
