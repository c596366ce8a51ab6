import Cohort.Dispatch

/-!
# Tasks

A task is a manual run or a firing of a recurring job that is on its way. Tasks take
turns: each goes on until it has to wait for a slot, for a lock, or for the end of a
query. A task that is cancelled stops where it waits, but the part of a run that holds
the lock of the rule is always carried to its end. That part goes on even while nobody
attends to the tasks; the rest of a task does not.

## Main definitions

* `Task` — a run on its way
* `Foreground` — what else goes on while the tasks do
* `Task.isAlive` — the task is not cancelled
* `Task.mustWait` — the task cannot go on now
* `Task.advance` — the task goes on as far as it can
-/

namespace Cohort

/-- What a task was started for. -/
inductive TaskKey where
  | manual (sequence : Nat)
  | recurring (rule : RuleId) (generation : Nat)
  deriving DecidableEq, Repr

/-- The job board still has what the task was started for. -/
def TaskKey.isAlive (b : JobBoard) : TaskKey → Bool
  | .manual sequence => b.isPending sequence
  | .recurring rule generation => b.isCurrent rule generation

/-- A run on its way. -/
structure Task where
  key : TaskKey
  rest : Program Unit
  /-- When the query ends that the task is in, in milliseconds since the system started. -/
  queryEnd : Option Nat := none

/-- What the foreground does while the tasks go on. -/
inductive Foreground where
  /-- It waits, and the tasks are attended to. -/
  | waiting
  /-- It is busy. A task goes on only in the part of its run that holds the lock of the rule. -/
  | busy
  deriving DecidableEq, Repr

namespace Request

/-- A cancelled task stops here, and so does any task that nobody attends to. -/
def isStop : Request → Bool
  | .takeSlot => true
  | .lock _ => true
  | .join => true
  | _ => false

/-- What a task gives back when it stops here: one that waits for a lock has a slot. -/
def giveUp (s : State) : Request → State
  | .lock _ => { s with slots := s.slots + 1 }
  | _ => s

/-- A query that takes its time ends here. -/
def endsQuery (s : State) : Request → Bool
  | .endQuery _ => 0 < s.engine.queryDelay
  | _ => false

end Request

namespace Task

/-- The task is not cancelled. -/
def isAlive (t : Task) (s : State) : Bool := t.key.isAlive s.board

/-- The task cannot go on at the given time. -/
def mustWait (f : Foreground) (elapsed : Nat) (s : State) (t : Task) : Bool :=
  match t.rest with
  | .done () => false
  | .ask r _ =>
    if r.isStop then f = .busy || (t.isAlive s && s.blocks r)
    else s.blocks r || t.queryEnd.any fun time => decide (elapsed < time)

/-- A program of a task goes on as far as it can. What is left of it is in the answer. -/
def advanceProgram (f : Foreground) (elapsed : Nat) (key : TaskKey) :
    Program Unit → Option Nat → State → Option Task × State
  | .done (), _, s => (none, s)
  | .ask r next, queryEnd, s =>
    if r.isStop && f = .busy then (some ⟨key, .ask r next, none⟩, s)
    else if r.isStop && !key.isAlive s.board then (none, r.giveUp s)
    else if s.blocks r then (some ⟨key, .ask r next, none⟩, s)
    else if r.endsQuery s && queryEnd.isNone then
      (some ⟨key, .ask r next, some (elapsed + s.engine.queryDelay)⟩, s)
    else advanceProgram f elapsed key (next (s.perform r).1) none (s.perform r).2

/-- The task goes on as far as it can. -/
def advance (f : Foreground) (elapsed : Nat) (t : Task) (s : State) : Option Task × State :=
  if t.mustWait f elapsed s then (some t, s)
  else advanceProgram f elapsed t.key t.rest t.queryEnd s

end Task

end Cohort
