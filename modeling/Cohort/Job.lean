import Cohort.Assoc
import Cohort.Calendar.Instant
import Cohort.JobState
import Cohort.RuleId
import Cohort.Schedule
import Cohort.Sorting

/-!
# Jobs

Each scheduled rule has one recurring job, and any rule can have manual runs beside
it. The job board knows them all. A job that is put in place of another gets a new
generation, so that a run which was started for the old one cannot change the new one.

## Main definitions

* `JobKey` — names a recurring job or a manual run
* `Job`, `ManualRun` — what the board knows about each
* `JobBoard` — all jobs and manual runs
-/

namespace Cohort

/-- Names the recurring job of a rule or one of its manual runs. -/
inductive JobKey where
  | recurring (rule : RuleId)
  | manual (rule : RuleId) (sequence : Nat)
  deriving DecidableEq, Repr

namespace JobKey

/-- The rule that a job belongs to. -/
def rule : JobKey → RuleId
  | .recurring rule => rule
  | .manual rule _ => rule

/-- The text of a key. -/
def text : JobKey → String
  | .recurring rule => "rule_" ++ rule.text
  | .manual rule sequence => "manual_run_" ++ rule.text ++ "_" ++ Nat.repr sequence

/-- Recurring jobs come before manual runs, then lower rules first, then earlier runs. -/
def le : JobKey → JobKey → Bool
  | .recurring a, .recurring b => RuleId.le a b
  | .recurring _, .manual .. => true
  | .manual .., .recurring _ => false
  | .manual a m, .manual b n => decide (a < b) || (a == b && decide (m ≤ n))

/-- The keys in their order. -/
def sorted (keys : List JobKey) : List JobKey := sortBy le keys

end JobKey

/-- The recurring job of a rule. -/
structure Job where
  generation : Nat
  state : JobState
  nextRunAt : Instant
  /-- When the job fires by itself. Jobs that are run in passes only never do, and neither does a
  job that has fired and is not done. -/
  timer : Option Instant
  deriving DecidableEq, Repr

/-- A run that was asked for by hand. -/
structure ManualRun where
  rule : RuleId
  sequence : Nat
  /-- The schedule of the rule when the run was asked for. -/
  schedule : Schedule
  /-- The run has been taken up. -/
  started : Bool := false
  deriving DecidableEq, Repr

/-- All recurring jobs and all manual runs that are not done. -/
structure JobBoard where
  jobs : List (RuleId × Job) := []
  manual : List ManualRun := []
  lastGeneration : Nat := 0
  lastSequence : Nat := 0
  deriving DecidableEq, Repr

namespace JobBoard

/-- The recurring job of a rule. -/
def job? (b : JobBoard) (rule : RuleId) : Option Job := Assoc.get? rule b.jobs

/-- The state of the recurring job of a rule. -/
def state (b : JobBoard) (rule : RuleId) : JobState :=
  ((b.job? rule).map Job.state).getD .unscheduled

/-- The generation of the recurring job of a rule. -/
def generation? (b : JobBoard) (rule : RuleId) : Option Nat := (b.job? rule).map Job.generation

/-- The recurring job of a rule is still the one of this generation. -/
def isCurrent (b : JobBoard) (rule : RuleId) (generation : Nat) : Bool :=
  b.generation? rule == some generation

/-- The manual run is not cancelled and not done. -/
def isPending (b : JobBoard) (sequence : Nat) : Bool :=
  b.manual.any fun run => run.sequence == sequence

/-- The keys of all jobs and manual runs, in order. -/
def keys (b : JobBoard) : List JobKey :=
  JobKey.sorted
    (b.jobs.map (fun p => .recurring p.1) ++ b.manual.map fun run => .manual run.rule run.sequence)

/-- Puts a new job in place for a rule. -/
def install (b : JobBoard) (rule : RuleId) (nextRunAt : Instant) (timer : Option Instant) :
    JobBoard :=
  let generation := b.lastGeneration + 1
  { b with
    jobs := Assoc.put rule ⟨generation, .scheduled, nextRunAt, timer⟩ b.jobs
    lastGeneration := generation }

/-- Removes the job of a rule and cancels its manual runs. -/
def remove (b : JobBoard) (rule : RuleId) : JobBoard :=
  { b with
    jobs := Assoc.erase rule b.jobs
    manual := b.manual.filter fun run => run.rule ≠ rule }

/-- Removes all jobs and cancels all manual runs. -/
def clear (b : JobBoard) : JobBoard := { b with jobs := [], manual := [] }

/-- Changes the job of a rule, if it is still the one of this generation. -/
def modify (b : JobBoard) (rule : RuleId) (generation : Nat) (f : Job → Job) : JobBoard :=
  match b.job? rule with
  | some job =>
    if job.generation = generation then { b with jobs := Assoc.put rule (f job) b.jobs } else b
  | none => b

/-- The job changes its state, if there is such a change. -/
def move (target : JobState) (job : Job) : Job :=
  if job.state.canBecome target then { job with state := target } else job

/-- A run of the job begins. -/
def fire (b : JobBoard) (rule : RuleId) (generation : Nat) : JobBoard :=
  b.modify rule generation (move .running)

/-- A run of the job ends, and the next one is due at `next`. -/
def finish (b : JobBoard) (rule : RuleId) (generation : Nat) (next : Instant) : JobBoard :=
  b.modify rule generation fun job =>
    { (if job.state = .running then move .scheduled job else job) with nextRunAt := next }

/-- The job will fire by itself. -/
def arm (b : JobBoard) (rule : RuleId) (generation : Nat) (timer : Instant) : JobBoard :=
  b.modify rule generation fun job => { job with timer := some timer }

/-- The job has fired by itself. -/
def disarm (b : JobBoard) (rule : RuleId) (generation : Nat) : JobBoard :=
  b.modify rule generation fun job => { job with timer := none }

/-- Removes the job of a rule that is no longer there. -/
def drop (b : JobBoard) (rule : RuleId) (generation : Nat) : JobBoard :=
  if b.isCurrent rule generation then { b with jobs := Assoc.erase rule b.jobs } else b

/-- Adds a manual run and says which number it has. -/
def enqueue (b : JobBoard) (rule : RuleId) (schedule : Schedule) : Nat × JobBoard :=
  let sequence := b.lastSequence + 1
  (sequence,
    { b with
      manual := b.manual ++ [{ rule, sequence, schedule }]
      lastSequence := sequence })

/-- A manual run is taken up. -/
def start (b : JobBoard) (sequence : Nat) : JobBoard :=
  { b with
    manual := b.manual.map fun run =>
      if run.sequence = sequence then { run with started := true } else run }

/-- A manual run is done. -/
def close (b : JobBoard) (sequence : Nat) : JobBoard :=
  { b with manual := b.manual.filter fun run => run.sequence ≠ sequence }

end JobBoard

end Cohort
