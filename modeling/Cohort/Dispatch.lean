import Cohort.Materialize

/-!
# Dispatching runs

A run first takes a slot and then the lock of its rule: a run that waits for a slot
must not hold a lock that a run in progress needs for a dependency. When the run is
over, its times are written down and the recurring job learns when it is due again.

## Main definitions

* `dispatch` — a run with its slot and lock
* `complete` — the bookkeeping after a run
* `manualRun` — a run that was asked for by hand
* `recurringRun` — a run of a job that fires by itself
-/

namespace Cohort

/-- Runs a rule in a slot and under its lock. The recurring job of the given generation counts as
running meanwhile. -/
def dispatch (setup : Setup) (id : RuleId) (generation : Option Nat) :
    Program (Except Failure Nat) := do
  Program.call .takeSlot
  Program.call (.lock id)
  match generation with
  | some generation => Program.call (.fireJob id generation)
  | none => pure ()
  let result ← (execute setup id).outcome
  Program.call (.unlock id)
  Program.call .freeSlot
  Program.call .join
  return result

/-- When a run that failed at `now` is tried again, if the calendar has that day. The delay is
taken as a signed number of seconds. -/
def Settings.Running.retryAt? (r : Settings.Running) (now : Instant) : Option Instant :=
  let retry := now.after r.retryDelaySeconds.toInt64.toInt
  if retry.inCalendar then some retry else none

/-- When a job is due after a run that ended at `now`. After a success the schedule counts from
then. After a failure the run is tried again, but not before the time at which it was due. -/
def dueAfter? (r : Settings.Running) (schedule : Schedule) (previous now : Instant) :
    Except Failure Nat → Option Instant
  | .ok _ => some (schedule.nextRun now)
  | .error _ => (r.retryAt? now).map fun retry => Instant.latest previous retry

/-- The bookkeeping after a run that was due at `previous`. A success is written down in the
catalogue; a failure leaves it as it is. The job of the given generation is due again at the time
in the answer. There is none if the calendar ends before it. -/
def complete (setup : Setup) (id : RuleId) (generation : Option Nat) (schedule : Schedule)
    (previous : Instant) (result : Except Failure Nat) : Program (Option Instant) := do
  let now ← Program.call .now
  match dueAfter? setup.running schedule previous now result with
  | none => return none
  | some next =>
    if result.isOk then
      let _ ← Program.call (.recordRun id now next)
    match generation with
    | some generation => Program.call (.finishJob id generation next)
    | none => pure ()
    return some next

/-- A run that was asked for by hand. A success is written down with the time at which the rule is
due anyway. -/
def manualRun (setup : Setup) (run : ManualRun) : Program Unit := do
  let result ← dispatch setup run.rule none
  if result.isOk then
    let now ← Program.call .now
    let row ← Program.call (.getRow run.rule)
    let next := (row.bind fun e => e.rule.nextRunAt).getD (run.schedule.nextRun now)
    let _ ← Program.call (.recordRun run.rule now next)
  Program.call (.closeRun run.sequence)

/-- What a recurring job does when its timer goes off. If the rule is gone, the job goes too. If
another run has moved the rule forward meanwhile, the job waits for the new time. -/
def recurringRun (setup : Setup) (id : RuleId) (generation : Nat) (timer : Instant) :
    Program Unit := do
  match ← Program.call (.getRow id) with
  | none => Program.call (.dropJob id generation)
  | some e =>
    let now ← Program.call .now
    match e.rule.nextRunAt.filter fun stored => decide (now < stored) && decide (timer < stored) with
    | some stored => Program.call (.armJob id generation stored)
    | none =>
      let result ← dispatch setup id (some generation)
      match ← complete setup id (some generation) e.rule.schedule timer result with
      | some next => Program.call (.armJob id generation next)
      | none => pure ()

end Cohort
