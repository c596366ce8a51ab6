import Cohort.Command
import Std.Time.DateTime.Timestamp

/-!
# The program

Reads the files, the variables and the time that a command needs, and shows its outcome.
-/

namespace Cohort

/-- The present time. -/
def presentTime : IO Instant := do
  let time ← Std.Time.Timestamp.now
  let nanoseconds := time.toNanosecondsSinceUnixEpoch.val
  return ⟨nanoseconds.fdiv 1000000000, (nanoseconds.fmod 1000000000).toNat⟩

/-- The contents of a file, if it can be read. -/
def contents? (path : String) : IO (Option String) := do
  try
    return some (← IO.FS.readFile path)
  catch _ =>
    return none

/-- The variables of the environment that have a meaning. -/
def environment : IO (List Settings.Variable) := do
  let names := Invocation.program.options.filterMap OptionSpec.variableName
  let found ← (names ++ Settings.Variable.names).mapM fun name => do
    return (← IO.getEnv name).map fun value => Settings.Variable.mk name value
  return found.filterMap id

/-- Runs rules on their schedules for ever. -/
partial def keepRunning (r : Command.Running) : IO Unit := do
  IO.sleep 1000
  let system := (r.system.atTime (← presentTime)).settle r.setup
  keepRunning { r with system }

/-- Shows how an invocation ends. -/
def report (o : Outcome) : IO UInt32 := do
  IO.print o.output
  match o.complaint with
  | some text => IO.eprintln ("Error: " ++ text)
  | none => pure ()
  return UInt32.ofNat o.exitCode

end Cohort

open Cohort in
/-- Does what the words of the command line ask for. -/
def main (words : List String) : IO UInt32 := do
  let env ← environment
  let files ← (Command.files env words).mapM fun path => do return (path, ← contents? path)
  let read (path : String) : Option String := (files.lookup path).join
  match Command.perform read env (← presentTime) words with
  | .ended outcome => report outcome
  | .running r =>
    keepRunning r
    return 0
