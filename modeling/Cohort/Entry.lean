import Cohort.Segment
import Cohort.Failure

/-!
# Catalogue entries

An entry holds a rule together with its segment and the version of both. The rule and
the segment must tell the same story about where the users come from.

## Main definitions

* `Entry` — a rule, its segment and a version
* `Entry.validate` — the first defect of an entry, if there is one
-/

namespace Cohort

/-- A rule, its segment and the version of both. -/
structure Entry where
  rule : Rule
  segment : Segment
  version : Nat
  deriving DecidableEq, Repr

namespace Entry

/-- The identifier of the rule. -/
def id (e : Entry) : RuleId := e.rule.id

/-- The rules whose segments this one combines. -/
def parents (e : Entry) : List RuleId := e.segment.source.parents

/-- The defect of a rule together with the source of its segment. -/
def sourceDefect? (rule : Rule) (source : SegmentSource) : Option RuleDefect :=
  match source, rule.dependencies with
  | .base _, none => none
  | .composite dependsOn operation _, some dependencies =>
    if dependsOn ≠ dependencies ∨ some operation ≠ rule.operation then
      some .dependenciesDisagree
    else if dependencies.isEmpty then some .noDependency
    else if dependencies.contains rule.id then some (.selfDependency rule.id)
    else if dependencies.Nodup then none
    else some .repeatedDependency
  | _, _ => some .sourceDisagrees

/-- The first defect of an entry. -/
def defect? (e : Entry) : Option RuleDefect :=
  if Text.isBlankText e.rule.name then some .emptyName
  else if e.rule.id ≠ e.segment.ruleId then some (.foreignSegment e.segment.ruleId e.rule.id)
  else if e.rule.dependencies.isSome ≠ e.rule.operation.isSome then some .incompleteComposition
  else sourceDefect? e.rule e.segment.source

/-- An entry without a defect passes. -/
def validate (e : Entry) : Except Failure Unit :=
  match e.defect? with
  | some defect => .error (.invalidRule defect)
  | none => .ok ()

end Entry

end Cohort
