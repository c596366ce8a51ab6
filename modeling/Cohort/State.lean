import Cohort.Catalog
import Cohort.Engine
import Cohort.Event
import Cohort.Job
import Cohort.Query.Compile

/-!
# The state of a system

Everything that operations read and change: the catalogue, the engine, the job board,
the events so far, the clock, and the locks and slots that runs hold.

## Main definitions

* `Clock` — where the present time comes from
* `Fault`, `Faults` — failures that the catalogue is told to have
* `State` — the state of a system
* `Setup` — what stays the same while a system runs
-/

namespace Cohort

/-- A clock that is read any number of times. -/
structure Clock where
  reading : Nat → Instant
  readings : Nat := 0

namespace Clock

/-- A clock that stands still. -/
def still (t : Instant) : Clock := { reading := fun _ => t }

/-- Reads the clock. -/
def read (c : Clock) : Instant × Clock :=
  (c.reading c.readings, { c with readings := c.readings + 1 })

end Clock

/-- After some calls that pass, so many calls fail. -/
structure Fault where
  skip : Nat := 0
  times : Nat := 0
  deriving DecidableEq, Repr

/-- Whether the next call fails. -/
def Fault.trip (f : Fault) : Bool × Fault :=
  match f.skip, f.times with
  | skip + 1, times => (false, ⟨skip, times⟩)
  | 0, times + 1 => (true, ⟨0, times⟩)
  | 0, 0 => (false, f)

/-- Failures that the catalogue is told to have. -/
structure Faults where
  refresh : Fault := {}
  remove : Fault := {}
  run : Fault := {}
  conflict : Fault := {}
  deriving DecidableEq, Repr

/-- The state of a system. -/
structure State where
  catalog : Catalog := {}
  engine : Engine := {}
  board : JobBoard := {}
  /-- The events so far, the first one first. -/
  log : List Event := []
  clock : Clock
  /-- The rules whose runs are locked. -/
  locks : List RuleId := []
  /-- How many more runs can be in progress. -/
  slots : Nat
  faults : Faults := {}

/-- Whether recurring jobs fire by themselves. -/
inductive JobMode where
  /-- Jobs are run in passes only. -/
  | manual
  /-- Jobs fire when they are due. -/
  | background
  deriving DecidableEq, Repr

/-- What stays the same while a system runs. -/
structure Setup where
  running : Settings.Running := {}
  naming : Settings.Naming := {}
  view : View := View.standard
  mode : JobMode := .manual
  /-- There is something that can carry out runs. -/
  hasRuntime : Bool := true

/-- The state in which a system starts. -/
def Setup.start (setup : Setup) (clock : Clock) (engine : Engine) : State :=
  { engine, clock, slots := setup.running.slots }

end Cohort
