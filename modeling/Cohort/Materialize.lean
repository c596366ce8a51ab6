import Cohort.Program

/-!
# Materialization

A run computes the segment of a rule and writes its output table. A segment with a
query of its own is computed from the transactions. A combined segment is computed
from the tables of its dependencies, and those that are missing or due can be
computed first, each at most once in a run.

## Main definitions

* `Entry.needsRefresh` — a dependency is missing or due
* `loadDependencies` — the tables of the dependencies
* `materialize` — computes and writes one segment
* `runRule` — a run, with its events
* `execute` — a run of a rule by itself
-/

namespace Cohort

/-- The table was never written, or it is time to write it again. -/
def Entry.needsRefresh (e : Entry) (now : Instant) : Bool :=
  !e.segment.isMaterialized || (e.rule.active && e.rule.nextRunAt.any fun t => decide (t ≤ now))

/-- Runs a query, which takes its time. -/
def runQuery (q : Query) : Program (Except EngineFailure Dataset) := do
  Program.call .beginQuery
  Program.call (.endQuery q)

/-- A failure of the engine ends the run of a rule. -/
def orFail {α : Type} (id : RuleId) (p : Program (Except EngineFailure α)) : Action α :=
  Action.check do
    let result ← p
    return result.mapError fun cause => .execution id (.engine cause)

/-- The rows of a query, without the unknown user. A query without data has no rows. -/
def computeBase (id : RuleId) (q : Query) : Action Dataset := do
  match ← Action.of (runQuery q) with
  | .ok rows => return Dataset.dropNull rows
  | .error .noResult => return []
  | .error .nothingToCombine => return []
  | .error cause => throw (.execution id (.engine cause))

/-- The table of a dependency and the time up to which it is complete. -/
def loadDependency (id dependency : RuleId) : Action (Dataset × Instant) := do
  let failWith (fault : LoadFault) : Failure := .dependencyLoad id dependency fault
  match ← Action.call (.getRow dependency) with
  | none => throw (failWith .notInCatalog)
  | some e =>
    match e.segment.dataAsOf <|> e.segment.lastRefreshedAt with
    | none => throw (failWith .neverMaterialized)
    | some asOf =>
      match ← Action.call (.readTable e.segment.table) with
      | .error cause => throw (failWith (.engine cause))
      | .ok rows => return (rows, asOf)

/-- The earliest of some instants, if there are any. -/
def earliestOf : List Instant → Option Instant
  | [] => none
  | t :: rest => some (rest.foldl Instant.earliest t)

/-- The tables of all dependencies, and the time up to which all of them are complete. -/
def loadDependencies (id : RuleId) (dependencies : List RuleId) :
    Action (List Dataset × Instant) := do
  let loaded ← dependencies.mapM (loadDependency id)
  match earliestOf (loaded.map (·.2)) with
  | none => throw (.execution id .noDependencies)
  | some oldest => return (loaded.map (·.1), oldest)

/-- Combines the tables of the dependencies and keeps the users that the residual query selects
too. A residual query without tests is not run. -/
def computeComposite (id : RuleId) (dependencies : List RuleId) (operation : SetOperation)
    (residual : Option Query) : Action (Dataset × Instant) := do
  let (operands, oldest) ← loadDependencies id dependencies
  let combined ← orFail id (pure (Dataset.combine operation operands))
  match residual.filter fun q => !q.isUnfiltered with
  | none => return (combined, oldest)
  | some q =>
    let narrowed ← orFail id (runQuery q)
    return (Dataset.intersect combined (Dataset.dropNull narrowed), oldest)

/-- Writes down a refresh. After a failure this is tried so many times more. -/
def writeMetadata (id : RuleId) (refresh : Refresh) (more : Nat) : Action Unit := do
  match ← Action.call (.recordRefresh id refresh) with
  | .ok () => return ()
  | .error cause =>
    match more with
    | 0 => throw (.metadataUpdate id refresh.rowCount cause)
    | fewer + 1 => writeMetadata id refresh fewer
termination_by structural more

/-- A run of a rule within another run: the rules whose runs are in progress, the rules that are
refreshed already, and the rule to run. The answer has the number of rows that were written and
the rules that are refreshed then. -/
abbrev NestedRun := List RuleId → List RuleId → RuleId → Action (Nat × List RuleId)

/-- Runs a dependency whose lock is held, unless someone else has refreshed it meanwhile. -/
def refreshLocked (nested : NestedRun) (running : List RuleId) (id dependency : RuleId)
    (seen : Entry) (refreshed : List RuleId) : Action (List RuleId) := do
  match ← Action.call (.getRow dependency) with
  | none => return refreshed
  | some current =>
    if current.segment.lastRefreshedAt ≠ seen.segment.lastRefreshedAt then return refreshed
    else
      match ← Action.of (nested running refreshed dependency).outcome with
      | .ok (_, refreshed) => return refreshed
      | .error cause => throw (.dependencyRefresh id dependency cause)

/-- Refreshes a dependency if that is needed. Its lock is held meanwhile, unless its run is in
progress already: then the dependencies have a cycle, which the nested run reports. -/
def refreshDependency (nested : NestedRun) (running : List RuleId) (id : RuleId) (now : Instant)
    (refreshed : List RuleId) (dependency : RuleId) : Action (List RuleId) := do
  if refreshed.contains dependency then return refreshed
  else
    match ← Action.call (.getRow dependency) with
    | none => return refreshed
    | some seen =>
      if !seen.needsRefresh now then return refreshed
      else if running.contains dependency then
        refreshLocked nested running id dependency seen refreshed
      else
        Action.call (.lockNested dependency)
        let outcome ← Action.of (refreshLocked nested running id dependency seen refreshed).outcome
        Action.call (.unlock dependency)
        Action.check (pure outcome)

/-- Refreshes the dependencies that need it, one after the other. -/
def refreshDependencies (nested : NestedRun) (running : List RuleId) (id : RuleId)
    (dependencies refreshed : List RuleId) : Action (List RuleId) := do
  let now ← Action.call .now
  dependencies.foldlM (refreshDependency nested running id now) refreshed

/-- The rows of a segment, the time up to which they are complete, and the rules that are
refreshed then. -/
def compute (setup : Setup) (nested : NestedRun) (running refreshed : List RuleId) (e : Entry)
    (started : Instant) : Action (Dataset × Instant × List RuleId) := do
  match e.segment.source with
  | .base q =>
    let rows ← computeBase e.id q
    return (rows, started, refreshed)
  | .composite dependencies operation residual =>
    let refreshed ←
      if setup.running.refreshStale then
        refreshDependencies nested running e.id dependencies refreshed
      else pure refreshed
    let (rows, asOf) ← computeComposite e.id dependencies operation residual
    return (rows, asOf, refreshed)

/-- Computes the segment of a rule, writes its table, and writes down that this was done. -/
def materialize (setup : Setup) (nested : NestedRun) : NestedRun := fun running refreshed id => do
  match ← Action.call (.getRow id) with
  | none => throw (.ruleNotFound id)
  | some e =>
    let started ← Action.call .now
    let (rows, asOf, refreshed) ← compute setup nested running refreshed e started
    let count ← orFail id (Program.call (.writeTable e.segment.table rows))
    let finished ← Action.call .now
    writeMetadata id ⟨count, finished, asOf⟩ (setup.running.attempts - 1)
    return (count, refreshed)

/-- A run of a rule whose dependencies are run by `nested`, with the events that tell of it. A
rule whose run is in progress already is not run again. -/
def runWith (setup : Setup) (nested : NestedRun) : NestedRun := fun running refreshed id => do
  if running.contains id then throw (.execution id .cycle)
  else
    Action.call (.emit { kind := .runStarted, rule := id })
    let outcome ← Action.of (materialize setup nested (id :: running) refreshed id).outcome
    Action.call (.emit (Event.ofRun id (outcome.map (·.1))))
    let (count, refreshed) ← Action.check (pure outcome)
    return (count, id :: refreshed)

/-- A run of a rule and of the dependencies that need it, so many levels deep. -/
def runRule (setup : Setup) : Nat → NestedRun
  | 0 => fun _ _ id => throw (.execution id .cycle)
  | depth + 1 => runWith setup (runRule setup depth)

/-- Runs a rule by itself and says how many rows were written. As no rule is run within its own
run, no run is deeper than there are rules. -/
def execute (setup : Setup) (id : RuleId) : Action Nat := do
  let (count, _) ← runRule setup (RuleId.count + 1) [] [] id
  return count

end Cohort
