import Cohort.Calendar.Instant
import Cohort.Text.Blank
import Cohort.Text.Letter

/-!
# Schedules

How often the segment of a rule is computed anew. The next run is always counted
from the present and never from the time at which the run was due.
-/

namespace Cohort

/-- The cadence of a rule. -/
inductive Schedule where
  | once
  | hourly
  | daily
  | weekly
  deriving DecidableEq, Repr, Inhabited

namespace Schedule

/-- All schedules. -/
def all : List Schedule := [.once, .hourly, .daily, .weekly]

/-- The name of a schedule. -/
def name : Schedule → String
  | .once => "ONCE"
  | .hourly => "HOURLY"
  | .daily => "DAILY"
  | .weekly => "WEEKLY"

/-- Seconds between two runs. A rule that is meant to run once is looked at again after a day. -/
def seconds : Schedule → Nat
  | .once => 86400
  | .hourly => 3600
  | .daily => 86400
  | .weekly => 604800

/-- The run after one at `now`. -/
def nextRun (s : Schedule) (now : Instant) : Instant := now.after s.seconds

/-- The schedule with exactly this name. -/
def ofName? (s : String) : Option Schedule := all.find? fun schedule => schedule.name == s

/-- Reads a schedule without regard to case and surrounding blanks. A text that names none is
given back in the form in which it was looked up. -/
def parse (s : String) : Except String Schedule :=
  let wanted := Text.upper (Text.trim s)
  match ofName? wanted with
  | some schedule => .ok schedule
  | none => .error s!"unknown schedule '{wanted}'"

end Schedule

end Cohort
