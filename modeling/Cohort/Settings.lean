import Cohort.RuleId
import Cohort.Json.Shape

/-!
# Settings

What can be set for a whole system: the names of tables and segments, the source
tables of the transaction view, the limits of the scheduler, and the metrics port.
Every member has a default.

## Main definitions

* `Settings` — all settings
* `Settings.Reader` — how members are read from JSON
* `Settings.readWith` — all settings from JSON
* `Settings.read?` — the same where each member is written as a value of its own type
* `Settings.Naming.tableName`, `Settings.Naming.segmentName` — the names given to a rule
-/

namespace Cohort

/-- One table of raw transactions and the type of the transactions in it. -/
structure Source where
  table : String
  kind : String
  deriving DecidableEq, Repr, Inhabited

namespace Settings

/-- How output tables and segments are named. -/
structure Naming where
  tablePrefix : String := "segment_output_"
  segmentPrefix : String := "segment_"
  deriving DecidableEq, Repr, Inhabited

/-- The name of the output table of a rule. -/
def Naming.tableName (n : Naming) (id : RuleId) : String := n.tablePrefix ++ id.text

/-- The name of the segment of a rule. -/
def Naming.segmentName (n : Naming) (id : RuleId) : String := n.segmentPrefix ++ id.text

/-- Where the transaction view takes its transactions from. -/
structure Sources where
  sources : List Source :=
    [⟨"upi_transactions_raw", "UPI"⟩, ⟨"credit_card_transactions_raw", "CREDIT_CARD"⟩]
  deriving DecidableEq, Repr, Inhabited

/-- The limits and delays of runs. -/
structure Running where
  maxConcurrentRuns : Nat := 4
  retryDelaySeconds : UInt64 := 60
  metadataAttempts : Nat := 3
  refreshStale : Bool := true
  deriving DecidableEq, Repr, Inhabited

/-- At least one run can be in progress. -/
def Running.slots (r : Running) : Nat := max r.maxConcurrentRuns 1

/-- The largest number of runs in progress that can be counted. -/
def Running.mostSlots : Nat := twoTo 61 - 1

/-- Metadata is written at least once. -/
def Running.attempts (r : Running) : Nat := max r.metadataAttempts 1

/-- Whether and where metrics are shown. -/
structure Metrics where
  enabled : Bool := false
  port : Nat := 9091
  deriving DecidableEq, Repr, Inhabited

end Settings

/-- All settings of a system. -/
structure Settings where
  nodeId : String := "node-01"
  naming : Settings.Naming := {}
  compiler : Settings.Sources := {}
  running : Settings.Running := {}
  metrics : Settings.Metrics := {}
  deriving DecidableEq, Repr, Inhabited

/-! ## Reading -/

/-- How the members of settings are read from JSON. -/
structure Settings.Reader where
  /-- The members of a structure with the given member names. -/
  shape? : List String → Json → Option Json.Shape
  text? : Json → Option String
  truth? : Json → Option Bool
  /-- A number of so many bits. -/
  unsigned? : Nat → Json → Option Nat

/-- Each member is written as a value of its own type. -/
def Settings.Reader.exact : Settings.Reader where
  shape? := Json.shape?
  text? := Json.text?
  truth? := Json.bool?
  unsigned? := Json.unsigned?

/-- Reads a source. -/
def Source.readWith (r : Settings.Reader) (j : Json) : Option Source := do
  let shape ← r.shape? ["table", "source_type"] j
  let table ← shape.required "table" r.text?
  let kind ← shape.required "source_type" r.text?
  return ⟨table, kind⟩

/-- Reads a source from members of their own types. -/
def Source.read? (j : Json) : Option Source := readWith .exact j

namespace Settings

/-- Reads the naming. -/
def Naming.readWith (r : Reader) (j : Json) : Option Naming := do
  let d : Naming := {}
  let shape ← r.shape? ["output_table_prefix", "segment_name_prefix"] j
  let tablePrefix ← shape.defaulted "output_table_prefix" d.tablePrefix r.text?
  let segmentPrefix ← shape.defaulted "segment_name_prefix" d.segmentPrefix r.text?
  return ⟨tablePrefix, segmentPrefix⟩

/-- Reads the source tables. -/
def Sources.readWith (r : Reader) (j : Json) : Option Sources := do
  let d : Sources := {}
  let shape ← r.shape? ["sources"] j
  let sources ← shape.defaulted "sources" d.sources (Json.listOf? (Source.readWith r))
  return ⟨sources⟩

/-- Reads the limits and delays. -/
def Running.readWith (r : Reader) (j : Json) : Option Running := do
  let d : Running := {}
  let shape ← r.shape? ["max_concurrent_runs", "retry_delay_secs", "metadata_update_attempts",
    "refresh_stale_dependencies"] j
  let runs ← shape.defaulted "max_concurrent_runs" d.maxConcurrentRuns (r.unsigned? 64)
  let delay ← shape.defaulted "retry_delay_secs" d.retryDelaySeconds.toNat (r.unsigned? 64)
  let attempts ← shape.defaulted "metadata_update_attempts" d.metadataAttempts (r.unsigned? 32)
  let refresh ← shape.defaulted "refresh_stale_dependencies" d.refreshStale r.truth?
  return ⟨runs, UInt64.ofNat delay, attempts, refresh⟩

/-- Reads the metrics settings. -/
def Metrics.readWith (r : Reader) (j : Json) : Option Metrics := do
  let d : Metrics := {}
  let shape ← r.shape? ["enabled", "port"] j
  let enabled ← shape.defaulted "enabled" d.enabled r.truth?
  let port ← shape.defaulted "port" d.port (r.unsigned? 16)
  return ⟨enabled, port⟩

/-- Reads all settings. -/
def readWith (r : Reader) (j : Json) : Option Settings := do
  let d : Settings := {}
  let shape ← r.shape? ["node_id", "catalog", "compiler", "scheduler", "metrics"] j
  let nodeId ← shape.defaulted "node_id" d.nodeId r.text?
  let naming ← shape.defaulted "catalog" d.naming (Naming.readWith r)
  let compiler ← shape.defaulted "compiler" d.compiler (Sources.readWith r)
  let running ← shape.defaulted "scheduler" d.running (Running.readWith r)
  let metrics ← shape.defaulted "metrics" d.metrics (Metrics.readWith r)
  return ⟨nodeId, naming, compiler, running, metrics⟩

/-- Reads the naming from members of their own types. -/
def Naming.read? (j : Json) : Option Naming := Naming.readWith .exact j

/-- Reads the source tables from members of their own types. -/
def Sources.read? (j : Json) : Option Sources := Sources.readWith .exact j

/-- Reads the limits and delays from members of their own types. -/
def Running.read? (j : Json) : Option Running := Running.readWith .exact j

/-- Reads all settings from members of their own types. -/
def read? (j : Json) : Option Settings := readWith .exact j

end Settings

end Cohort
