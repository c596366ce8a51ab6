import Cohort.Command.Help
import Cohort.Command.Invocation
import Cohort.Command.RuleFile
import Cohort.Engine.Json
import Cohort.Entry.Json
import Cohort.Json.Pretty
import Cohort.Manager
import Cohort.Segment.Record
import Cohort.Settings.Load
import Cohort.System

/-!
# Commands

What the program does when it is invoked. Files are looked up in a function from paths
to contents, so that all of this is free of effects.

## Main definitions

* `Outcome`, `Complaint` — how an invocation ends
* `Command.compileFile` — shows the query of a file of conditions
* `Command.runOnce`, `Command.start` — creates rules and computes their segments
* `Command.perform` — does what words ask for
-/

namespace Cohort

open Settings (Variable)

/-- How an invocation ends: what is printed, and what is said of a failure. -/
structure Outcome where
  exitCode : Nat := 0
  output : String := ""
  complaint : Option String := none
  deriving DecidableEq, Repr

/-- Why a command fails. -/
inductive Complaint where
  /-- A file cannot be read. -/
  | missing (path : String)
  /-- The contents of a file cannot be understood. -/
  | malformed (path : String)
  /-- An entry of a rule file combines a rule that is not before it. -/
  | unknownRule (entry name : String)
  | failure (f : Failure)
  deriving DecidableEq, Repr

/-- The text of a complaint. -/
def Complaint.message : Complaint → String
  | .missing path => "reading " ++ path
  | .malformed path => "parsing " ++ path
  | .unknownRule entry name => "rule " ++ entry ++ " combines unknown rule " ++ name
  | .failure f => f.message

/-- The end of a command that fails. -/
def Complaint.outcome (c : Complaint) : Outcome := { exitCode := 1, complaint := some c.message }

/-- The end of an invocation before there is a command. -/
def Interruption.outcome (env : List Variable) : Interruption → Outcome
  | .help level => { output := level.helpText env }
  | .version text => { output := text ++ "\n" }
  | .misuse => { exitCode := 2 }

/-- The JSON form of a report. -/
def PassReport.toJson (report : PassReport) : Json :=
  .object [
    ("succeeded", .list (report.succeeded.map fun (id, rows) =>
      .list [id.toJson, .int (rows : Nat)])),
    ("failed", .list (report.failed.map fun (id, f) => .list [id.toJson, .text f.message])),
    ("skipped", .list (report.skipped.map RuleId.toJson))]

namespace Command

/-- A printed value. -/
def printed (j : Json) : Outcome := { output := j.tidy.pretty ++ "\n" }

/-- Reads a file in outline. -/
def load {α : Type} (read : String → Option String) (path : String) (outline : Json.Outline)
    (decode : Json → Option α) : Except Complaint α :=
  match read path with
  | none => .error (.missing path)
  | some text =>
    match (Json.parseOutline? outline text).bind decode with
    | none => .error (.malformed path)
    | some a => .ok a

/-! ## Compiling -/

/-- The query of a file of conditions, and the conditions that were dropped. -/
def compileFile (view : View) (read : String → Option String) (path : String) :
    Except Complaint Json := do
  let input ← load read path .whole ConditionInput.read?
  let compiled := view.compile input.normalize.conditions
  return .object [("query", compiled.query.toJson),
    ("warnings", .list (compiled.warnings.map Warning.toJson))]

/-! ## Running -/

/-- Creates the rules of a file one after the other. -/
def createAll (setup : Setup) : List RuleEntry → List (String × RuleId) →
    Program (Except Complaint Unit)
  | [], _ => return .ok ()
  | e :: rest, ids =>
    match e.draft ids with
    | .error name => return .error (.unknownRule e.name name)
    | .ok draft => do
      match ← (createRule setup draft).outcome with
      | .error f => return .error (.failure f)
      | .ok created => createAll setup rest (Assoc.put e.name created.entry.id ids)

/-- What is shown of a pass. There is nothing if the calendar ends before its next run times. -/
def runOnce (setup : Setup) (entries : List RuleEntry) :
    Program (Except Complaint (Option Json)) := do
  match ← createAll setup entries [] with
  | .error c => return .error c
  | .ok () =>
    match ← runPass setup with
    | none => return .ok none
    | some report =>
      let rows ← Program.call .listRows
      let records := rows.map fun e => e.segment.toRecord.toJson Instant.toJson
      return .ok (some (.object [("report", report.toJson), ("segments", .list records)]))

/-- A setup and a system that goes on by itself. -/
structure Running where
  setup : Setup
  system : System

/-- What becomes of an invocation. -/
inductive Result where
  | ended (outcome : Outcome)
  /-- Rules are run on their schedules from now on. -/
  | running (r : Running)

/-- A system at its start. -/
def begin (setup : Setup) (now : Instant) (transactions : List Transaction) : System where
  state := setup.start (.still now) { transactions }

/-- The end of a program that could not go on. -/
def broken : Outcome := { exitCode := 101 }

/-- Creates rules and computes their segments. More runs in progress than can be counted end the
program. -/
def start (settings : Settings) (view : View) (now : Instant) (once : Bool)
    (entries : List RuleEntry) (transactions : List Transaction) : Result :=
  let setup : Setup :=
    { running := settings.running
      naming := settings.naming
      view
      mode := if once then .manual else .background }
  let system := begin setup now transactions
  if Settings.Running.mostSlots < settings.running.slots then .ended broken
  else if once then
    match (system.run setup .waiting (runOnce setup entries)).1 with
    | some (.ok (some j)) => .ended (printed j)
    | some (.error c) => .ended c.outcome
    | _ => .ended broken
  else
    match system.run setup .waiting (createAll setup entries []) with
    | (some (.ok ()), system) => .running ⟨setup, system⟩
    | (some (.error c), _) => .ended c.outcome
    | (none, _) => .ended broken

/-! ## Invocations -/

/-- Carries out a command. -/
def carryOut (settings : Settings) (view : View) (read : String → Option String) (now : Instant) :
    Command → Except Complaint Result
  | .compile conditions => (compileFile view read conditions).map fun j => .ended (printed j)
  | .run rules transactions once => do
    let entries ← load read rules (.items RuleEntry.outline) (Json.listOf? RuleEntry.ofJson?)
    let transactions ←
      load read transactions (.items Transaction.outline) (Json.listOf? Transaction.ofJson?)
    return start settings view now once entries transactions

/-- Does what an invocation asks for with the settings that were loaded. -/
def withSettings (read : String → Option String) (now : Instant) (i : Invocation)
    (loaded : Settings) : Result :=
  let settings := loaded.override i.overrides
  match View.ofSources settings.compiler.sources with
  | .error f => .ended (Complaint.failure f).outcome
  | .ok view =>
    match carryOut settings view read now i.command with
    | .ok result => result
    | .error c => .ended c.outcome

/-- Does what an invocation asks for. Settings that are not usable are left at their defaults. -/
def ofInvocation (read : String → Option String) (env : List Variable) (now : Instant)
    (i : Invocation) : Result :=
  match Settings.load read i.config env with
  | .ok settings => withSettings read now i settings
  | .error .unusable => withSettings read now i {}
  | .error .misplaced => .ended broken

/-- Does what words ask for. -/
def perform (read : String → Option String) (env : List Variable) (now : Instant)
    (words : List String) : Result :=
  match Invocation.parse env words with
  | .ok i => ofInvocation read env now i
  | .error i => .ended (i.outcome env)

/-- The files that may be read. -/
def filesOf (i : Invocation) : List String :=
  (i.config.map Settings.fileNames).getD [] ++
    match i.command with
    | .compile conditions => [conditions]
    | .run rules transactions _ => [rules, transactions]

/-- The files that may be read when words are carried out. -/
def files (env : List Variable) (words : List String) : List String :=
  match Invocation.parse env words with
  | .ok i => filesOf i
  | .error _ => []

end Command

end Cohort
