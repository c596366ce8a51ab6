import Cohort.RuleId
import Cohort.JobState

/-!
# Failures

Every way in which an operation can fail, and the text that tells people about it.

## Main definitions

* `EngineFailure` — failures of the engine that computes segments
* `RuleDefect` — what is wrong with a rule
* `Failure` — failures of all operations
* `Failure.message` — the text of a failure
-/

namespace Cohort

/-- A failure of the engine. -/
inductive EngineFailure where
  | tableNotFound (table : String)
  | noResult
  | nothingToCombine
  | writeRefused (table : String)
  | processExited (code : Int)
  deriving DecidableEq, Repr

/-- The text of an engine failure. -/
def EngineFailure.message : EngineFailure → String
  | .tableNotFound table => "table not found: " ++ table
  | .noResult => "query failed: source returned no result"
  | .nothingToCombine => "query failed: cannot combine zero datasets"
  | .writeRefused table => "write to " ++ table ++ " failed: storage unavailable"
  | .processExited code => "batch process exited with code Some(" ++ toString code ++ ")"

/-- What is wrong with a rule. -/
inductive RuleDefect where
  | emptyName
  | foreignSegment (owner rule : RuleId)
  | incompleteComposition
  | dependenciesDisagree
  | noDependency
  | selfDependency (rule : RuleId)
  | repeatedDependency
  | sourceDisagrees
  | emptyComposition
  | cyclicDependency (dependency : RuleId)
  | unknownDependency (dependency : RuleId)
  deriving DecidableEq, Repr

/-- The text of a defect. -/
def RuleDefect.message : RuleDefect → String
  | .emptyName => "rule name must not be empty"
  | .foreignSegment owner rule => "segment belongs to rule " ++ owner.text ++ ", not " ++ rule.text
  | .incompleteComposition => "dependencies and operation must be set together"
  | .dependenciesDisagree => "segment dependencies disagree with the rule"
  | .noDependency => "a composite rule needs at least one dependency"
  | .selfDependency rule => "rule " ++ rule.text ++ " cannot depend on itself"
  | .repeatedDependency => "duplicate dependency"
  | .sourceDisagrees => "segment source disagrees with the rule"
  | .emptyComposition => "a composition needs at least one dependency"
  | .cyclicDependency dependency =>
    "depending on rule " ++ dependency.text ++ " would create a cycle"
  | .unknownDependency dependency => "unknown dependency " ++ dependency.text

/-- A failure of the catalogue. -/
inductive CatalogFault where
  | alreadyExists (rule : RuleId)
  | missingPlan (rule : RuleId)
  | missingOperation (rule : RuleId)
  | ambiguousSource (rule : RuleId)
  | unreadableOperation (detail : String)
  | connectionReset
  deriving DecidableEq, Repr

/-- The text of a catalogue failure. -/
def CatalogFault.message : CatalogFault → String
  | .alreadyExists rule => "rule " ++ rule.text ++ " already exists"
  | .missingPlan rule => "segment " ++ rule.text ++ " has a compiled query but no plan"
  | .missingOperation rule => "segment " ++ rule.text ++ " has dependencies but no operation"
  | .ambiguousSource rule =>
    "segment " ++ rule.text ++ " must have exactly one of compiled_query and depends_on"
  | .unreadableOperation detail => detail
  | .connectionReset => "connection reset"

/-- Why a run failed. -/
inductive RunFault where
  | cycle
  | noDependencies
  | engine (cause : EngineFailure)
  deriving DecidableEq, Repr

/-- The text of a run failure. -/
def RunFault.message : RunFault → String
  | .cycle => "dependency cycle detected"
  | .noDependencies => "composite segment has no dependencies"
  | .engine cause => cause.message

/-- Why the segment of a dependency could not be loaded. -/
inductive LoadFault where
  | notInCatalog
  | neverMaterialized
  | engine (cause : EngineFailure)
  deriving DecidableEq, Repr

/-- The text of a load failure. -/
def LoadFault.message : LoadFault → String
  | .notInCatalog => "not in catalog"
  | .neverMaterialized => "never materialized"
  | .engine cause => cause.message

/-- A failure of the scheduler. -/
inductive SchedulerFault where
  | noRuntimeToSchedule
  | noRuntimeToRun
  | badTransition (source target : JobState)
  deriving DecidableEq, Repr

/-- The text of a scheduler failure. -/
def SchedulerFault.message : SchedulerFault → String
  | .noRuntimeToSchedule => "no async runtime to schedule on"
  | .noRuntimeToRun => "no async runtime to run on"
  | .badTransition source target =>
    "Invalid job state transition from " ++ source.title ++ " to " ++ target.title

/-- Changes a state, if there is such a change. -/
def JobState.become (a b : JobState) : Except SchedulerFault JobState :=
  if a.canBecome b then .ok b else .error (.badTransition a b)

/-- A failure of an operation. -/
inductive Failure where
  | noSources
  | ruleNotFound (rule : RuleId)
  | nameTaken (name : String)
  | invalidRule (defect : RuleDefect)
  | hasDependents (rule : RuleId) (dependents : List RuleId)
  | versionConflict (rule : RuleId) (expected found : Nat)
  | catalog (fault : CatalogFault)
  | dependencyLoad (rule dependency : RuleId) (fault : LoadFault)
  | dependencyRefresh (rule dependency : RuleId) (cause : Failure)
  | execution (rule : RuleId) (fault : RunFault)
  | metadataUpdate (rule : RuleId) (rows : Nat) (cause : Failure)
  | engine (cause : EngineFailure)
  | scheduler (fault : SchedulerFault)
  | unreadable
  deriving DecidableEq, Repr

namespace Failure

/-- The list of rules that depend on another. -/
def idList (ids : List RuleId) : String :=
  "[" ++ ", ".intercalate (ids.map fun id => "RuleId(" ++ id.text ++ ")") ++ "]"

/-- The text of a failure. -/
def message : Failure → String
  | .noSources => "Configuration error: the transaction view needs at least one source table"
  | .ruleNotFound rule => "Rule " ++ rule.text ++ " not found"
  | .nameTaken name => "Rule name '" ++ name ++ "' is already taken"
  | .invalidRule defect => "Invalid rule: " ++ defect.message
  | .hasDependents rule dependents =>
    "Rule " ++ rule.text ++ " is a dependency of " ++ idList dependents
  | .versionConflict rule expected found =>
    "Rule " ++ rule.text ++ " was modified concurrently (expected version " ++
      Nat.repr expected ++ ", found " ++ Nat.repr found ++ ")"
  | .catalog fault => "Catalog error: " ++ fault.message
  | .dependencyLoad rule dependency fault =>
    "Dependency " ++ dependency.text ++ " of rule " ++ rule.text ++
      " could not be loaded: " ++ fault.message
  | .dependencyRefresh rule dependency cause =>
    "Dependency " ++ dependency.text ++ " of rule " ++ rule.text ++
      " could not be loaded: refresh failed: " ++ message cause
  | .execution rule fault =>
    "Materialization of rule " ++ rule.text ++ " failed: " ++ fault.message
  | .metadataUpdate rule rows cause =>
    "Segment for rule " ++ rule.text ++ " was written (" ++ Nat.repr rows ++
      " rows) but its metadata update failed: " ++ message cause
  | .engine cause => "Batch engine error: " ++ cause.message
  | .scheduler fault => "Scheduler error: " ++ fault.message
  | .unreadable => "Serialization error"

/-- The output table may already hold new rows although the run is reported as failed. -/
def isPartial : Failure → Bool
  | .metadataUpdate .. => true
  | _ => false

end Failure

end Cohort
