import Cohort.Json.Basic
import Cohort.Toml.Moment

/-!
# Dates and times as tables

While a document is read, a date or time is a table with one member of a reserved name.
A document may write such a table itself: a table whose first member has that name
stands for a date or time, whatever its other members are, and the text of the member is
read more freely than a date or time without quotes. When the document is complete, all
these tables become texts.

## Main definitions

* `Toml.momentTable` — the table of a date or time
* `Toml.quotedMoment?` — the date or time that the text of a member stands for
* `Toml.settled?` — a value with texts in the place of such tables
-/

namespace Cohort.Toml

/-- The reserved name. -/
def momentKey : String := "$__toml_private_datetime"

/-- The table of a date or time. -/
def momentTable (s : String) : Json := .object [(momentKey, .text s)]

/-- Reads an offset of at most a day behind its sign. Its minutes may be more than an hour. -/
def readLongOffset? (negative : Bool) (cs : List Char) : Option (String × List Char) := do
  let (hour, cs) ← readPair? cs
  let cs ← Calendar.readChar? ':' cs
  let (minute, cs) ← readPair? cs
  let size := 60 * hour + minute
  if size ≤ 1440 then return (offsetText negative (size / 60) (size % 60), cs) else none

/-- Reads a time behind a date, where a mark says that there is one. -/
def readMarkedTime? (cs : List Char) : Option (String × List Char) :=
  match Calendar.readTimeMark? cs with
  | none => some ("", cs)
  | some cs => (readTime? 24 cs).map fun (time, rest) => ("T" ++ time, rest)

/-- Reads a date, a time, or both, freely: there may be an hour 24, an offset of a whole day, and an
offset without a time. -/
def readFreeMoment? (cs : List Char) : Option (String × List Char) :=
  match readDate? cs with
  | none => readTime? 24 cs
  | some (date, rest) => do
    let (time, rest) ← readMarkedTime? rest
    let (offset, rest) ← readOffset? readLongOffset? rest
    return (date.text ++ time ++ offset, rest)

/-- The date or time that the text of a member stands for. -/
def quotedMoment? (s : String) : Option String :=
  match readFreeMoment? s.toList with
  | some (moment, []) => some moment
  | _ => none

/-- The value of the first member, if that has the reserved name. -/
def momentMember? : List (String × Json) → Option Json
  | (key, value) :: _ => if key = momentKey then some value else none
  | [] => none

mutual

/-- A value with texts for all dates and times. There is none if a table stands for a date or time
that cannot be read. -/
def settled? : Json → Option Json
  | .null => some .null
  | .bool b => some (.bool b)
  | .int i => some (.int i)
  | .float x => some (.float x)
  | .text s => some (.text s)
  | .list items => (settledItems? items).map .list
  | .object members =>
    match momentMember? members with
    | some value => (value.text?.bind quotedMoment?).map .text
    | none => (settledMembers? members).map .object
termination_by structural j => j

/-- Settles each item. -/
def settledItems? : List Json → Option (List Json)
  | [] => some []
  | j :: rest => do
    let j ← settled? j
    return j :: (← settledItems? rest)
termination_by structural js => js

/-- Settles the value of each member. -/
def settledMembers? : List (String × Json) → Option (List (String × Json))
  | [] => some []
  | (key, j) :: rest => do
    let j ← settled? j
    return (key, j) :: (← settledMembers? rest)
termination_by structural ms => ms

end

end Cohort.Toml
