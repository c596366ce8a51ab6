import Cohort.Task

/-!
# Systems

A system is a state together with the tasks on their way. Its operations run in the
foreground. Where an operation has to wait, the tasks go on meanwhile, and where all of
them are in a query, time passes until the first of these queries ends. An operation
that is busy throughout attends to no task: only runs that hold a lock go on beside it.

## Main definitions

* `System` — a state and its tasks
* `System.gather` — takes up manual runs and jobs that are due
* `System.settle` — lets all tasks go on until none is left
* `System.wait` — lets time pass
* `System.run` — runs an operation in the foreground
-/

namespace Cohort

/-- A state, the tasks on their way, and the milliseconds since the system started. -/
structure System where
  state : State
  tasks : List Task := []
  elapsed : Nat := 0

namespace System

/-- The system with a clock that stands at a time. -/
def atTime (now : Instant) (y : System) : System :=
  { y with state := { y.state with clock := .still now } }

/-- The manual runs that are not taken up yet. -/
def waitingRuns (b : JobBoard) : List ManualRun := b.manual.filter fun run => !run.started

/-- The jobs whose timers go off, with the times of these timers. -/
def firingJobs (b : JobBoard) (now : Instant) : List (RuleId × Job × Instant) :=
  b.jobs.filterMap fun (id, job) =>
    (job.timer.filter fun time => decide (time ≤ now)).map fun time => (id, job, time)

/-- Takes up manual runs, and then the jobs that are due. -/
def gather (setup : Setup) (y : System) : System :=
  let b := y.state.board
  let (now, clock) := y.state.clock.read
  let runs := waitingRuns b
  let jobs := firingJobs b now
  let board := runs.foldl (fun b run => b.start run.sequence) b
  let board := jobs.foldl (fun b (id, job, _) => b.disarm id job.generation) board
  { y with
    state := { y.state with board, clock }
    tasks :=
      y.tasks ++ runs.map (fun run => ⟨.manual run.sequence, manualRun setup run, none⟩) ++
        jobs.map fun (id, job, time) =>
          ⟨.recurring id job.generation, recurringRun setup id job.generation time, none⟩ }

/-- Lets the first task that can go on do so. There is no answer if all have to wait. -/
def step? (f : Foreground) (y : System) : Option System :=
  match y.tasks.findIdx? fun t => !t.mustWait f y.elapsed y.state with
  | none => none
  | some i =>
    match y.tasks[i]? with
    | none => none
    | some t =>
      let (rest, state) := t.advance f y.elapsed y.state
      some { y with
        state
        tasks := y.tasks.take i ++ rest.toList ++ y.tasks.drop (i + 1) }

/-- The time at which the first of the queries in progress ends. -/
def nextQueryEnd? (y : System) : Option Nat := (y.tasks.filterMap Task.queryEnd).min?

/-- Lets time pass until the first query ends, but not beyond a limit. -/
def passTime? (limit : Option Nat) (y : System) : Option System :=
  match y.nextQueryEnd? with
  | none => none
  | some time =>
    if y.elapsed < time && limit.all (fun limit => decide (time ≤ limit)) then
      some { y with elapsed := time }
    else none

/-- Lets tasks go on, and time pass, until `enough` or until nothing can go on. New runs are taken
up if the foreground waits. The number bounds the steps. -/
def progress (setup : Setup) (f : Foreground) (limit : Option Nat) (enough : System → Bool) :
    Nat → System → System
  | 0, y => y
  | n + 1, y =>
    if enough y then y
    else
      let y := if f = .waiting then y.gather setup else y
      match (y.step? f).orElse fun _ => y.passTime? limit with
      | some next => progress setup f limit enough n next
      | none => y

/-- More steps than any sequence of runs takes. -/
def manySteps : Nat := 1000000

/-- Lets all tasks go on until none is left. -/
def settle (setup : Setup) (y : System) : System :=
  y.progress setup .waiting none (fun _ => false) manySteps

/-- Lets so many milliseconds pass while the foreground does as said. -/
def letPass (setup : Setup) (f : Foreground) (milliseconds : Nat) (y : System) : System :=
  let limit := y.elapsed + milliseconds
  { y.progress setup f (some limit) (fun _ => false) manySteps with elapsed := limit }

/-- Waits for so many milliseconds. -/
def wait (setup : Setup) (milliseconds : Nat) (y : System) : System :=
  y.letPass setup .waiting milliseconds

/-- What happens before a request of the foreground can be carried out: it has to wait, or it ends
a query, which takes its time. -/
def comeTo (setup : Setup) (f : Foreground) (r : Request) (y : System) : System :=
  if y.state.blocks r then y.progress setup f none (fun y => !y.state.blocks r) manySteps
  else if r.endsQuery y.state then y.letPass setup f y.state.engine.queryDelay
  else y

/-- Runs an operation in the foreground. Where it has to wait, the tasks go on. There is no result
if it waits for ever. -/
def run {α : Type} (setup : Setup) (f : Foreground) : Program α → System → Option α × System
  | .done a, y => (some a, y)
  | .ask r next, y =>
    let y := y.comeTo setup f r
    if y.state.blocks r then (none, y)
    else run setup f (next (y.state.perform r).1) { y with state := (y.state.perform r).2 }

end System

end Cohort
