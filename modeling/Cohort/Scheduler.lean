import Cohort.Dispatch
import Cohort.Lineage.Order

/-!
# The scheduler

The scheduler keeps one recurring job for each active rule, takes in runs that are
asked for by hand, and runs all due rules in a pass.

## Main definitions

* `schedule`, `scheduleAll`, `shutdown` — recurring jobs
* `trigger` — asks for a run by hand
* `runPass` — runs every due rule once, dependencies first
-/

namespace Cohort

/-- Puts a job in place for a rule. A rule that is not active loses its job instead. -/
def schedule (setup : Setup) (rule : Rule) : Action Unit := do
  if !rule.active then
    let _ ← Action.call (.removeJob rule.id)
  else if setup.mode = .background ∧ !setup.hasRuntime then
    throw (.scheduler .noRuntimeToSchedule)
  else
    let next ←
      match rule.nextRunAt with
      | some next => pure next
      | none => Action.call .now
    let timer := if setup.mode = .background then some next else none
    Action.call (.installJob rule.id next timer)

/-- Puts jobs in place for all rules of the catalogue and says how many jobs there are. -/
def scheduleAll (setup : Setup) : Action Nat := do
  let rows ← Action.call .listRows
  rows.forM fun e => schedule setup e.rule
  Action.call .countJobs

/-- Asks for a run of a rule, which does not touch its schedule. -/
def trigger (setup : Setup) (id : RuleId) : Action JobKey := do
  match ← Action.call (.getRow id) with
  | none => throw (.ruleNotFound id)
  | some e =>
    if !setup.hasRuntime then throw (.scheduler .noRuntimeToRun)
    else
      let sequence ← Action.call (.enqueueRun id e.rule.schedule)
      Action.call (.emit { kind := .runTriggered, rule := id })
      return .manual id sequence

/-- The outcome of a pass. -/
structure PassReport where
  /-- The rules that were run, with the numbers of rows that were written. -/
  succeeded : List (RuleId × Nat) := []
  failed : List (RuleId × Failure) := []
  /-- The due rules that have no place in the order because of a cycle. -/
  skipped : List RuleId := []
  deriving DecidableEq, Repr

/-- The report with the outcome of one more run. -/
def PassReport.add (report : PassReport) (id : RuleId) : Except Failure Nat → PassReport
  | .ok rows => { report with succeeded := report.succeeded ++ [(id, rows)] }
  | .error failure => { report with failed := report.failed ++ [(id, failure)] }

/-- The rule is active, and its time has come or was never set. -/
def Entry.isDue (e : Entry) (now : Instant) : Bool :=
  e.rule.active && e.rule.nextRunAt.all fun t => decide (t ≤ now)

/-- Runs the due entries of a pass one after the other. There is no report if the calendar ends
before the time at which a failed run is tried again. -/
def passOver (setup : Setup) (began : Instant) :
    List Entry → PassReport → Program (Option PassReport)
  | [], report => return some report
  | e :: rest, report => do
    let generation ← Program.call (.jobGeneration e.id)
    let result ← dispatch setup e.id generation
    let previous := e.rule.nextRunAt.getD began
    match ← complete setup e.id generation e.rule.schedule previous result with
    | none => return none
    | some _ => passOver setup began rest (report.add e.id result)

/-- Runs every due rule once, dependencies first. -/
def runPass (setup : Setup) : Program (Option PassReport) := do
  let now ← Program.call .now
  let rows ← Program.call .listRows
  let due := rows.filter fun e => e.isDue now
  let order := executionOrder due
  let entries := order.ordered.filterMap fun id => due.find? fun e => e.id = id
  passOver setup now entries { skipped := order.cyclic }

end Cohort
