import Cohort.Rule
import Cohort.Condition.Key
import Cohort.Sorting

/-!
# Covering conditions by existing rules

A new rule need not ask for everything itself. Existing rules whose declared
conditions are part of its own already hold the users in question, so the new
rule can intersect their segments and test only what they do not cover.

## Main definitions

* `Rule.isReusable` — a rule whose segment is nothing but its declared conditions
* `Cover` — covering rules, and the conditions that are left
* `Cover.find?` — the greedy cover, largest sets first
-/

namespace Cohort

/-- Rules that together test a part of some conditions, and the conditions they leave. The users
are those in the segments of all of them. -/
structure Cover where
  dependencies : List RuleId
  residual : List Condition
  deriving DecidableEq, Repr

namespace Rule

/-- The rule with an identifier; the later one where there are several. -/
def lookup? (rules : List Rule) (id : RuleId) : Option Rule :=
  (rules.filter fun r => r.id = id).getLast?

/-- Checks operands one after the other until one fails. The rules that are being visited are
handed from one check to the next. -/
def allOperands (check : Rule → List RuleId → Bool × List RuleId) (rules : List Rule) :
    List RuleId → List RuleId → Bool × List RuleId
  | [], visiting => (true, visiting)
  | id :: rest, visiting =>
    match lookup? rules id with
    | none => allOperands check rules rest visiting
    | some operand =>
      match check operand visiting with
      | (true, visiting) => allOperands check rules rest visiting
      | (false, visiting) => (false, visiting)

/-- Whether a rule narrows to its declared conditions, and the rules that are still being
visited afterwards. A union or difference does not narrow, and neither does a rule that is
already being visited. The number bounds the depth of the search. -/
def checkReusable (rules : List Rule) : Nat → Rule → List RuleId → Bool × List RuleId
  | 0, _, visiting => (false, visiting)
  | depth + 1, rule, visiting =>
    match rule.operation with
    | none => (true, visiting)
    | some .union => (false, visiting)
    | some .difference => (false, visiting)
    | some .intersection =>
      if rule.id ∈ visiting then (false, visiting)
      else
        let (reusable, after) :=
          allOperands (checkReusable rules depth) rules (rule.dependencies.getD [])
            (rule.id :: visiting)
        (reusable, after.erase rule.id)

/-- The segment of a rule is given by its declared conditions. No search is deeper than the
number of rules. -/
def isReusable (rules : List Rule) (rule : Rule) : Bool :=
  (checkReusable rules (rules.length + 1) rule []).1

end Rule

namespace Cover

/-- A rule that can cover conditions, with its declared conditions. -/
structure Candidate where
  id : RuleId
  keys : KeySet

/-- Larger sets come first, and of equal ones the lower identifier. -/
def Candidate.before (a b : Candidate) : Bool :=
  decide (b.keys.size < a.keys.size) || (a.keys.size == b.keys.size && RuleId.le a.id b.id)

/-- The rules that cover a proper part of the wanted conditions. -/
def candidates (wanted : KeySet) (rules : List Rule) (excluded : List RuleId) : List Candidate :=
  ((rules.filter fun r => r.active && !excluded.contains r.id && r.isReusable rules).map
    fun r => ⟨r.id, KeySet.ofConditions r.declared⟩).filter
      fun c => !c.keys.isEmpty && decide (c.keys.size < wanted.size) && c.keys.subset wanted

/-- Takes every candidate whose conditions are all still wanted, and drops them from the wanted
ones. -/
def choose : List Candidate → KeySet → List RuleId × KeySet
  | [], wanted => ([], wanted)
  | c :: rest, wanted =>
    if !wanted.isEmpty && c.keys.subset wanted then
      let (ids, left) := choose rest (wanted.diff c.keys)
      (c.id :: ids, left)
    else choose rest wanted

/-- The first condition of each key that is wanted. -/
def firstOfEach (wanted : KeySet) : List Condition.Key → List Condition → List Condition
  | _, [] => []
  | seen, c :: rest =>
    if wanted.contains c.key && !seen.contains c.key then
      c :: firstOfEach wanted (c.key :: seen) rest
    else firstOfEach wanted seen rest

/-- The greedy cover of some conditions, if any rule covers a part of them. -/
def find? (conditions : List Condition) (rules : List Rule) (excluded : List RuleId) :
    Option Cover :=
  let wanted := KeySet.ofConditions conditions
  if wanted.isEmpty then none
  else
    let usable := sortBy Candidate.before (candidates wanted rules excluded)
    match choose usable wanted with
    | ([], _) => none
    | (id :: ids, left) => some ⟨id :: ids, firstOfEach left [] conditions⟩

end Cover

end Cohort
