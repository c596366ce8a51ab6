import Cohort.Failure

/-!
# Events

What happens to rules and runs is told as a sequence of events.

## Main definitions

* `EventKind` — what can happen
* `Event` — something that happened to a rule
-/

namespace Cohort

/-- What can happen to a rule. -/
inductive EventKind where
  | ruleCreated
  | ruleUpdated
  | ruleDeleted
  | runTriggered
  | runStarted
  | runSucceeded
  | runFailed
  | metadataUpdateFailed
  deriving DecidableEq, Repr

namespace EventKind

/-- All kinds of events. -/
def all : List EventKind :=
  [.ruleCreated, .ruleUpdated, .ruleDeleted, .runTriggered, .runStarted, .runSucceeded, .runFailed,
    .metadataUpdateFailed]

/-- The name of a kind. -/
def name : EventKind → String
  | .ruleCreated => "rule_created"
  | .ruleUpdated => "rule_updated"
  | .ruleDeleted => "rule_deleted"
  | .runTriggered => "run_triggered"
  | .runStarted => "run_started"
  | .runSucceeded => "run_succeeded"
  | .runFailed => "run_failed"
  | .metadataUpdateFailed => "metadata_update_failed"

end EventKind

/-- Something that happened to a rule, with the rows that were written and the failure, if the
event has them. -/
structure Event where
  kind : EventKind
  rule : RuleId
  rows : Option Nat := none
  cause : Option Failure := none
  deriving DecidableEq, Repr

/-- The event that ends a run. A run whose table is written although its metadata is not has an
event of its own. -/
def Event.ofRun (rule : RuleId) : Except Failure Nat → Event
  | .ok rows => { kind := .runSucceeded, rule, rows := some rows }
  | .error (.metadataUpdate r rows cause) =>
    { kind := .metadataUpdateFailed, rule, rows := some rows,
      cause := some (.metadataUpdate r rows cause) }
  | .error failure => { kind := .runFailed, rule, cause := some failure }

end Cohort
