import Cohort.Decimal.Reader
import Cohort.Json.Basic
import Cohort.Power
import Cohort.Text.Letter

/-!
# Variables of the environment

A setting can be given by a variable. In its name, two underscores stand between the
names of a table and of its member, and letters may be small or large.

## Main definitions

* `Settings.Variable` — a variable
* `Settings.Variable.place?`, `Settings.Variable.json` — the setting that it gives
-/

namespace Cohort.Settings

/-- A variable of the environment. -/
structure Variable where
  name : String
  value : String
  deriving DecidableEq, Repr

/-- Writes a dot for every two underscores. -/
def dotted : List Char → List Char
  | [] => []
  | [c] => [c]
  | c :: d :: rest => if c = '_' ∧ d = '_' then '.' :: dotted rest else c :: dotted (d :: rest)

namespace Variable

/-- The value of the variable with a name. -/
def value? (name : String) (env : List Variable) : Option String :=
  (env.find? fun v => v.name == name).map Variable.value

/-- The usual names of the variables for settings. -/
def names : List String := [
  "AUDIENCE_MANAGER__NODE_ID",
  "AUDIENCE_MANAGER__CATALOG__OUTPUT_TABLE_PREFIX",
  "AUDIENCE_MANAGER__CATALOG__SEGMENT_NAME_PREFIX",
  "AUDIENCE_MANAGER__SCHEDULER__MAX_CONCURRENT_RUNS",
  "AUDIENCE_MANAGER__SCHEDULER__RETRY_DELAY_SECS",
  "AUDIENCE_MANAGER__SCHEDULER__METADATA_UPDATE_ATTEMPTS",
  "AUDIENCE_MANAGER__SCHEDULER__REFRESH_STALE_DEPENDENCIES",
  "AUDIENCE_MANAGER__METRICS__ENABLED",
  "AUDIENCE_MANAGER__METRICS__PORT"]

/-- What the names of all variables for settings begin with. -/
def start : String := "audience_manager__"

/-- Where the value of a variable is put. -/
def place? (v : Variable) : Option String :=
  let name := (Text.small v.name).toList
  if start.toList.isPrefixOf name then
    some (String.ofList (dotted (name.drop start.length)))
  else none

/-- The value of a variable: a truth value or a number if it reads like one, or else a text. -/
def json (v : Variable) : Json :=
  let word := Text.lower v.value
  if word == "true" then .bool true
  else if word == "false" then .bool false
  else
    match (Decimal.readInteger? v.value).filter isSigned64 with
    | some i => .int i
    | none =>
      match Decimal.readFloat? v.value with
      | some x => .float x
      | none => .text v.value

end Variable

end Cohort.Settings
