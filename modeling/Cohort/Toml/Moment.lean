import Cohort.Calendar.Instant

/-!
# Dates and times in TOML

A value may be a date, a time of day, or both with or without an offset from universal
time. Each is given as a text of one form: a capital `T` between date and time, a `Z`
for universal time, and a fraction of at most nine digits without zeros at its end.

## Main definitions

* `Toml.readMoment?` — a date, a time, or both
-/

namespace Cohort.Toml

open Calendar (readChar? padded)

/-- Reads two digits. -/
def readPair? (cs : List Char) : Option (Nat × List Char) := Calendar.readDigits? 2 2 cs

/-- Reads two digits whose value is not above the largest one. -/
def readPart? (largest : Nat) (cs : List Char) : Option (Nat × List Char) :=
  (readPair? cs).filter fun (n, _) => decide (n ≤ largest)

/-- Reads a date with a year of four digits. -/
def readDate? (cs : List Char) : Option (Date × List Char) := do
  let (year, cs) ← Calendar.readDigits? 4 4 cs
  let cs ← readChar? '-' cs
  let (month, cs) ← readPair? cs
  let cs ← readChar? '-' cs
  let (day, cs) ← readPair? cs
  let date ← Date.ofParts? year month day
  return (date, cs)

/-- The fraction of a second, without zeros at its end. -/
def fractionText (nanos : Nat) : String :=
  if nanos = 0 then ""
  else
    "." ++ String.ofList ((padded 9 nanos).toList.reverse.dropWhile fun c => c == '0').reverse

/-- Reads a time of day up to an hour. Its second may be the sixtieth of a minute. -/
def readTime? (lastHour : Nat) (cs : List Char) : Option (String × List Char) := do
  let (hour, cs) ← readPart? lastHour cs
  let cs ← readChar? ':' cs
  let (minute, cs) ← readPart? 59 cs
  let cs ← readChar? ':' cs
  let (second, cs) ← readPart? 60 cs
  let (nanos, cs) ← Calendar.readFraction? cs
  return (padded 2 hour ++ ":" ++ padded 2 minute ++ ":" ++ padded 2 second ++
    fractionText nanos, cs)

/-- The text of an offset. There is no negative offset of nothing. -/
def offsetText (negative : Bool) (hour minute : Nat) : String :=
  (if negative && (hour != 0 || minute != 0) then "-" else "+") ++
    padded 2 hour ++ ":" ++ padded 2 minute

/-- Reads an offset behind its sign. -/
def readShortOffset? (negative : Bool) (cs : List Char) : Option (String × List Char) := do
  let (hour, cs) ← readPart? 23 cs
  let cs ← readChar? ':' cs
  let (minute, cs) ← readPart? 59 cs
  return (offsetText negative hour minute, cs)

/-- Reads an offset from universal time, if there is one. What stands behind a sign is read by
`signed`, which is told whether it is a minus. -/
def readOffset? (signed : Bool → List Char → Option (String × List Char)) :
    List Char → Option (String × List Char)
  | 'Z' :: rest => some ("Z", rest)
  | 'z' :: rest => some ("Z", rest)
  | '+' :: rest => signed false rest
  | '-' :: rest => signed true rest
  | rest => some ("", rest)

/-- Reads a time behind a date, with its offset. -/
def readTimeOfDate? (cs : List Char) : Option (String × List Char) := do
  let cs ← Calendar.readTimeMark? cs
  let (time, cs) ← readTime? 23 cs
  let (offset, cs) ← readOffset? readShortOffset? cs
  return ("T" ++ time ++ offset, cs)

/-- Reads a date, a time, or both. -/
def readMoment? (cs : List Char) : Option (String × List Char) :=
  match readDate? cs with
  | none => readTime? 23 cs
  | some (date, rest) =>
    match readTimeOfDate? rest with
    | none => some (date.text, rest)
    | some (time, rest) => some (date.text ++ time, rest)

end Cohort.Toml
