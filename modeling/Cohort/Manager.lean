import Cohort.Cover
import Cohort.Scheduler

/-!
# Managing rules

Rules are created, changed and deleted so that the row in the catalogue, the recurring
job and the output table stay in step. An operation that fails half-way is undone.

## Main definitions

* `Plan` — how the segment of a rule is computed
* `plan` — finds it, by reuse of other segments where that is possible
* `createRule`, `updateRule`, `deleteRule` — the operations
-/

namespace Cohort

/-- How the segment of a rule is computed. -/
structure Plan where
  /-- The conditions that the rule tests itself. -/
  conditions : List Condition
  /-- All conditions that the rule stands for. -/
  declared : List Condition
  source : SegmentSource
  deriving DecidableEq, Repr

/-- The entry with its segment computed as planned. -/
def Entry.withPlan (e : Entry) (p : Plan) : Entry :=
  { e with
    rule :=
      { e.rule with
        conditions := p.conditions
        declared := p.declared
        dependencies := p.source.dependsOn?
        operation := p.source.operation? }
    segment := { e.segment with source := p.source } }

/-- The query that narrows a combined segment, if there are conditions for it. -/
def View.residual (v : View) (conditions : List Condition) : Option Query :=
  if conditions.isEmpty then none else some (v.compile conditions).query

/-- All conditions of a dependency, which must be a rule of the catalogue that may be used. -/
def inherited (excluded : List RuleId) (dependency : RuleId) : Action (List Condition) := do
  if excluded.contains dependency then throw (.invalidRule (.cyclicDependency dependency))
  else
    match ← Action.call (.getRow dependency) with
    | none => throw (.invalidRule (.unknownDependency dependency))
    | some e => return e.rule.declared

/-- The plan of a composition. An intersection stands for the conditions of its operands too. -/
def planComposition (setup : Setup) (conditions : List Condition) (c : Composition)
    (excluded : List RuleId) : Action Plan := do
  if c.dependencies.isEmpty then throw (.invalidRule .emptyComposition)
  else
    let declared ← c.dependencies.mapM (inherited excluded)
    return {
      conditions
      declared :=
        if c.operation = .intersection then declared.flatten ++ conditions else conditions
      source := .composite c.dependencies c.operation (setup.view.residual conditions) }

/-- The plan of conditions without a composition: by reuse of other segments, or by a query. -/
def planCover (setup : Setup) (conditions : List Condition) (rules : List Rule)
    (excluded : List RuleId) : Plan :=
  match Cover.find? conditions rules excluded with
  | some cover =>
    { conditions := cover.residual
      declared := conditions
      source := .composite cover.dependencies .intersection (setup.view.residual cover.residual) }
  | none =>
    { conditions
      declared := conditions
      source := .base (setup.view.compile conditions).query }

/-- The plan of a rule that must not make use of the excluded ones. -/
def plan (setup : Setup) (conditions : List Condition) (composition : Option Composition)
    (excluded : List RuleId) : Action Plan := do
  match composition with
  | some c => planComposition setup conditions c excluded
  | none =>
    let rows ← Action.call .listRows
    return planCover setup conditions (rows.map Entry.rule) excluded

/-- A stored rule and the conditions that were dropped from it. -/
structure RuleOutcome where
  entry : Entry
  warnings : List Warning
  deriving DecidableEq, Repr

/-- The entry of a new rule, before it is planned. -/
def RuleDraft.entry (d : RuleDraft) (setup : Setup) (id : RuleId) (name : String)
    (now : Instant) : Entry where
  rule :=
    { id, name
      description := d.description
      conditions := []
      declared := []
      dependencies := none
      operation := none
      active := d.active
      schedule := d.schedule
      nextRunAt := if d.active then some now else none
      lastRunAt := none
      createdAt := now
      updatedAt := now }
  segment :=
    { ruleId := id
      name := setup.naming.segmentName id
      table := setup.naming.tableName id
      source := .base (setup.view.compile d.conditions).query
      rowCount := 0
      lastRefreshedAt := none
      dataAsOf := none
      createdAt := now }
  version := 0

/-- Puts the job in place for a new rule. If there can be none, the rule is removed again. -/
def commitCreate (setup : Setup) (stored : Entry) (warnings : List Warning) :
    Action RuleOutcome := do
  match ← Action.of (schedule setup stored.rule).outcome with
  | .error failure =>
    let _ ← Action.call (.removeRow stored.id)
    throw failure
  | .ok () =>
    Action.call (.emit { kind := .ruleCreated, rule := stored.id })
    return ⟨stored, warnings⟩

/-- Creates a rule. A rule that cannot be scheduled is removed again. -/
def createRule (setup : Setup) (d : RuleDraft) : Action RuleOutcome := do
  let name := Text.trim d.name
  if name.isEmpty then throw (.invalidRule .emptyName)
  else
    let rows ← Action.call .listRows
    if rows.any fun e => e.rule.name = name then throw (.nameTaken name)
    else
      let id ← Action.call .allocateId
      let plan ← plan setup d.conditions d.composition [id]
      let now ← Action.call .now
      let stored ← Action.check
        (Program.call (.insertRow ((d.entry setup id name now).withPlan plan)))
      commitCreate setup stored (setup.view.compile d.conditions).warnings

/-- Puts the members of a patch that have no bearing on the segment into an entry. A new schedule
counts from now, and a rule that becomes active is due now. -/
def RulePatch.applyPlain (p : RulePatch) (now : Instant) (e : Entry) : Except Failure Entry := do
  let rule := e.rule
  let name ←
    match p.name with
    | none => pure rule.name
    | some name =>
      let name := Text.trim name
      if name.isEmpty then throw (.invalidRule .emptyName) else pure name
  let schedule := p.schedule.getD rule.schedule
  let rescheduled :=
    if schedule = rule.schedule then rule.nextRunAt else some (schedule.nextRun now)
  let active := p.active.getD rule.active
  let nextRunAt := if active && !rule.active then some now else rescheduled
  return { e with
    rule :=
      { rule with
        name, schedule, active, nextRunAt
        description := p.description <|> rule.description } }

/-- The composition that a rule keeps when its conditions change. Unions and differences keep their
operands; other rules are planned anew. -/
def Rule.keptComposition (r : Rule) : Option Composition :=
  match r.dependencies, r.operation with
  | some dependencies, some operation =>
    if operation = .intersection then none else some ⟨dependencies, operation⟩
  | _, _ => none

/-- The conditions of a patch, if they differ as a set from those that the rule stands for. -/
def RulePatch.changedConditions (p : RulePatch) (r : Rule) : Option (List Condition) :=
  p.conditions.filter fun conditions =>
    KeySet.ofConditions conditions ≠ KeySet.ofConditions r.declared

/-- The entry with its rule due now, if it is active. -/
def Entry.dueAt (e : Entry) (now : Instant) : Entry :=
  { e with
    rule := { e.rule with nextRunAt := if e.rule.active then some now else e.rule.nextRunAt } }

/-- The entry with the time of its last change. -/
def Entry.touched (e : Entry) (now : Instant) : Entry :=
  { e with rule := { e.rule with updatedAt := now } }

/-- Plans a rule with new conditions. The rule is due now if it is active. -/
def replan (setup : Setup) (current : Rule) (now : Instant) (conditions : List Condition)
    (next : Entry) : Action Entry := do
  let rows ← Action.call .listRows
  let dependents := dependents rows current.id
  if !dependents.isEmpty then throw (.hasDependents current.id dependents)
  else
    let plan ← plan setup conditions current.keptComposition [current.id]
    return (next.withPlan plan).dueAt now

/-- The entry after a patch, and the conditions that were dropped. -/
def applyPatch (setup : Setup) (current : Entry) (p : RulePatch) :
    Action (Entry × List Warning) := do
  let now ← Action.call .now
  let next ← Action.check (pure (p.applyPlain now current))
  match p.changedConditions current.rule with
  | none => return (next.touched now, [])
  | some conditions =>
    let next ← replan setup current.rule now conditions next
    return (next.touched now, (setup.view.compile conditions).warnings)

/-- Puts the job in place for a changed rule. If there can be none, the change is undone. -/
def commitUpdate (setup : Setup) (current stored : Entry) (warnings : List Warning) :
    Action RuleOutcome := do
  match ← Action.of (schedule setup stored.rule).outcome with
  | .error failure =>
    match ← Action.call (.replaceRow current stored.version) with
    | .ok restored => let _ ← Action.of (schedule setup restored.rule).outcome
    | .error _ => pure ()
    throw failure
  | .ok () =>
    Action.call (.emit { kind := .ruleUpdated, rule := stored.id })
    return ⟨stored, warnings⟩

/-- One attempt to change a rule. If someone else changed it meanwhile, `again` says how to go
on. -/
def updateOnce (setup : Setup) (id : RuleId) (p : RulePatch)
    (again : Failure → Action RuleOutcome) : Action RuleOutcome := do
  match ← Action.call (.getRow id) with
  | none => throw (.ruleNotFound id)
  | some current =>
    let (next, warnings) ← applyPatch setup current p
    match ← Action.call (.replaceRow next current.version) with
    | .ok stored => commitUpdate setup current stored warnings
    | .error failure =>
      match failure with
      | .versionConflict .. => again failure
      | _ => throw failure

/-- Changes a rule. If someone else changed it meanwhile, this is tried so many times more. -/
def updateWithin (setup : Setup) (id : RuleId) (p : RulePatch) : Nat → Action RuleOutcome
  | 0 => updateOnce setup id p fun failure => throw failure
  | fewer + 1 => updateOnce setup id p fun _ => updateWithin setup id p fewer

/-- Changes a rule, in three attempts at most. -/
def updateRule (setup : Setup) (id : RuleId) (p : RulePatch) : Action RuleOutcome :=
  updateWithin setup id p 2

/-- Drops the table and the row of a rule whose lock is held. -/
def deleteLocked (current : Entry) : Action Entry := do
  match ← Action.call (.dropTable current.segment.table) with
  | .error cause => throw (.engine cause)
  | .ok () => Action.check (Program.call (.removeRow current.id))

/-- The setup as a deletion sees it. A deletion can wait for a run in progress, so what it runs on
can carry jobs too. -/
def Setup.whileWaiting (setup : Setup) : Setup := { setup with hasRuntime := true }

/-- Deletes a rule with its job and its table. A rule that others depend on cannot be deleted. The
job is put back in place if the table or the row cannot be removed. -/
def deleteRule (setup : Setup) (id : RuleId) : Action Entry := do
  let rows ← Action.call .listRows
  match rows.find? fun e => e.id = id with
  | none => throw (.ruleNotFound id)
  | some current =>
    let dependents := dependents rows id
    if !dependents.isEmpty then throw (.hasDependents id dependents)
    else
      let _ ← Action.call (.removeJob id)
      Action.call (.lock id)
      match ← Action.of (deleteLocked current).outcome with
      | .error failure =>
        let _ ← Action.of (schedule setup.whileWaiting current.rule).outcome
        Action.call (.unlock id)
        throw failure
      | .ok removed =>
        Action.call (.emit { kind := .ruleDeleted, rule := id })
        Action.call (.unlock id)
        return removed

end Cohort
