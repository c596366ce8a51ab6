/-!
# Job states

The recurring job of a rule is scheduled, running, or not there. This module says
which changes between these states there are.
-/

namespace Cohort

/-- What a recurring job is doing. -/
inductive JobState where
  | unscheduled
  | scheduled
  | running
  deriving DecidableEq, Repr, Inhabited

namespace JobState

/-- The name of a state. -/
def name : JobState → String
  | .unscheduled => "unscheduled"
  | .scheduled => "scheduled"
  | .running => "running"

/-- The name of a state as a title. -/
def title : JobState → String
  | .unscheduled => "Unscheduled"
  | .scheduled => "Scheduled"
  | .running => "Running"

/-- A change of state and what brings it about. -/
structure Transition where
  source : JobState
  target : JobState
  trigger : String
  deriving DecidableEq, Repr

/-- All changes of state. A finished run leads back to the schedule whether it failed or not. -/
def transitions : List Transition :=
  [⟨.unscheduled, .scheduled, "schedule"⟩, ⟨.scheduled, .scheduled, "reschedule"⟩,
    ⟨.scheduled, .running, "fire"⟩, ⟨.running, .scheduled, "run_finished"⟩,
    ⟨.scheduled, .unscheduled, "remove"⟩, ⟨.running, .unscheduled, "remove"⟩]

/-- There is a change from the first state to the second. -/
def canBecome (a b : JobState) : Bool := transitions.any fun t => t.source == a && t.target == b

end JobState

end Cohort
