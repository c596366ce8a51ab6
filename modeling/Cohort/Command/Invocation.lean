import Cohort.Command.Level
import Cohort.Settings
import Cohort.Settings.Variable

/-!
# Invocations

The program has one command that compiles conditions and one that creates rules and
computes their segments. Options before the command change the settings; each of them
can also be given by a variable of the environment.

## Main definitions

* `Command` — what is to be done
* `Overrides` — what is changed in the settings
* `Invocation.parse` — the invocation that words stand for
-/

namespace Cohort

open Settings (Variable)

/-- What is to be done. -/
inductive Command where
  /-- Show the query of the conditions in a file. -/
  | compile (conditions : String)
  /-- Create the rules in a file and compute their segments over the transactions in another one,
  in one pass or on their schedules. -/
  | run (rules transactions : String) (once : Bool)
  deriving DecidableEq, Repr

/-- What is changed in the settings. -/
structure Overrides where
  nodeId : Option String := none
  maxConcurrentRuns : Option Nat := none
  metricsPort : Option Nat := none
  deriving DecidableEq, Repr

/-- Settings with some of them changed. A port for metrics turns metrics on. -/
def Settings.override (s : Settings) (o : Overrides) : Settings :=
  { s with
    nodeId := o.nodeId.getD s.nodeId
    running := { s.running with
      maxConcurrentRuns := o.maxConcurrentRuns.getD s.running.maxConcurrentRuns }
    metrics :=
      match o.metricsPort with
      | some port => { enabled := true, port }
      | none => s.metrics }

/-- What the program is asked to do. -/
structure Invocation where
  config : Option String := none
  overrides : Overrides := {}
  command : Command
  deriving DecidableEq, Repr

namespace Invocation

/-! ## What is understood -/

/-- A number of runs. -/
def runs? (s : String) : Option Nat := (Decimal.readNatural? s).filter (isUnsigned 64)

/-- The number of a network port. -/
def portNumber? (s : String) : Option Nat :=
  (((Decimal.readInteger? s).filter fun i => decide (0 ≤ i)).map Int.toNat).filter (isUnsigned 16)

/-- The program itself. -/
def program : Level where
  usage := "audience-manager [OPTIONS] <COMMAND>"
  about := "Rule-based audience segmentation with incremental segment reuse"
  options := [
    { name := "config"
      value := some "CONFIG"
      help := "Configuration file (TOML, YAML or JSON)"
      variableName := some "AUDIENCE_MANAGER_CONFIG" },
    { name := "node-id"
      value := some "NODE_ID"
      help := "Node identifier (overrides config)"
      variableName := some "AUDIENCE_MANAGER__NODE_ID" },
    { name := "max-concurrent-runs"
      value := some "MAX_CONCURRENT_RUNS"
      help := "Maximum concurrent materialization runs (overrides config)"
      variableName := some "AUDIENCE_MANAGER__SCHEDULER__MAX_CONCURRENT_RUNS"
      accepts := fun s => (runs? s).isSome },
    { name := "metrics-port"
      value := some "METRICS_PORT"
      help := "Prometheus exporter port; enables the exporter (overrides config)"
      variableName := some "AUDIENCE_MANAGER__METRICS__PORT"
      accepts := fun s => (portNumber? s).isSome }]
  commands := [
    ("compile", "Compile a condition list (or legacy condition object) and print the query"),
    ("run", "Create rules and materialize their segments"),
    ("help", "Print this message or the help of the given subcommand(s)")]
  version := some "audience-manager 0.1.0"

/-- An option for the path of a file, which must not be empty. -/
def pathOption (name value help : String) : OptionSpec where
  name := name
  value := some value
  help := help
  accepts := fun s => !s.isEmpty

/-- What is said about a subcommand. -/
def aboutOf (name : String) : String := (program.commands.lookup name).getD ""

/-- The command that compiles conditions. -/
def compileLevel : Level where
  usage := "audience-manager compile --conditions <CONDITIONS>"
  about := aboutOf "compile"
  options := [pathOption "conditions" "CONDITIONS" ""]

/-- The command that runs rules. -/
def runLevel : Level where
  usage := "audience-manager run [OPTIONS] --rules <RULES> --transactions <TRANSACTIONS>"
  about := aboutOf "run"
  options := [
    pathOption "rules" "RULES" "JSON array of rule definitions",
    pathOption "transactions" "TRANSACTIONS" "JSON array of transactions",
    { name := "once", help := "Run a single pass over all rules and exit" }]

/-- The command that asks for help. -/
def helpLevel : Level where
  usage := "audience-manager help [COMMAND]..."
  about := aboutOf "help"
  arguments := [("[COMMAND]...", "Print help for the subcommand(s)")]
  hasHelp := false

/-! ## Reading -/

/-- An option that must be given. -/
def needed (given : List (String × String)) (name : String) : Except Interruption String :=
  match given.lookup name with
  | some value => .ok value
  | none => .error .misuse

/-- The help that is asked for by words behind the command for it. -/
def helpOn : List String → Interruption
  | [] => .help program
  | ["compile"] => .help compileLevel
  | ["run"] => .help runLevel
  | ["help"] => .help helpLevel
  | _ => .misuse

/-- Reads a subcommand and the words behind it. -/
def readCommand (name : String) (words : List String) : Except Interruption Command := do
  if name == "compile" then
    let given ← compileLevel.readAll words
    return .compile (← needed given "conditions")
  else if name == "run" then
    let given ← runLevel.readAll words
    return .run (← needed given "rules") (← needed given "transactions")
      (given.lookup "once").isSome
  else throw (helpOn words)

/-- The value of an option, from the words or from the environment. -/
def valueOf (env : List Variable) (given : List (String × String)) (o : OptionSpec) :
    Option String :=
  given.lookup o.name <|> o.variableName.bind fun name => Variable.value? name env

/-- The values of all options of the program, each of which must be accepted. -/
def values (env : List Variable) (given : List (String × String)) :
    Except Interruption (List (String × String)) :=
  let found := program.options.filterMap fun o =>
    (valueOf env given o).map fun value => (o, value)
  if found.all fun (o, value) => o.accepts value then
    .ok (found.map fun (o, value) => (o.name, value))
  else .error .misuse

/-- The invocation that words stand for. -/
def parse (env : List Variable) (words : List String) : Except Interruption Invocation := do
  let (r, rest) ← program.scan words {}
  match rest with
  | none => throw .misuse
  | some (name, words) =>
    let command ← readCommand name words
    let r ← program.settle r
    let values ← values env r.given
    return {
      config := values.lookup "config"
      overrides :=
        { nodeId := values.lookup "node-id"
          maxConcurrentRuns := (values.lookup "max-concurrent-runs").bind runs?
          metricsPort := (values.lookup "metrics-port").bind portNumber? }
      command }

end Invocation

end Cohort
