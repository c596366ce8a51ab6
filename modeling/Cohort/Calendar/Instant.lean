import Cohort.Calendar.Date
import Cohort.Power

/-!
# Instants

Points in time, counted in seconds and nanoseconds from the start of 1970 in
universal time. A leap second is the second before it with a nanosecond part of a
whole second or more.

## Main definitions

* `Instant` — a point in time
* `Instant.after` — the instant some seconds later
* `Instant.text` — `2024-01-31T10:00:00.250Z`
* `Instant.parse?` — reads date, time and offset
* `Calendar.readOffsetDate?` — the date of a strictly written instant in its own offset
-/

namespace Cohort

/-- A point in time. -/
structure Instant where
  seconds : Int
  nanos : Nat
  deriving DecidableEq, Repr, Inhabited

namespace Instant

/-- Earlier instants come first. -/
def compare (a b : Instant) : Ordering :=
  (Ord.compare a.seconds b.seconds).then (Ord.compare a.nanos b.nanos)

/-- `a` is not later than `b`. -/
def le (a b : Instant) : Bool :=
  decide (a.seconds < b.seconds) || (decide (a.seconds = b.seconds) && decide (a.nanos ≤ b.nanos))

instance : LE Instant := ⟨fun a b => le a b = true⟩

instance : LT Instant := ⟨fun a b => le b a = false⟩

instance (a b : Instant) : Decidable (a ≤ b) := inferInstanceAs (Decidable (le a b = true))

instance (a b : Instant) : Decidable (a < b) := inferInstanceAs (Decidable (le b a = false))

/-- The later of two instants. -/
def latest (a b : Instant) : Instant := if a ≤ b then b else a

/-- The earlier of two instants. -/
def earliest (a b : Instant) : Instant := if a ≤ b then a else b

/-- The instant some seconds later, or earlier for a negative number. Counting on from inside a
leap second leaves it. -/
def after (t : Instant) (seconds : Int) : Instant :=
  if 1000000000 ≤ t.nanos then
    if 0 < seconds then ⟨t.seconds + seconds, t.nanos - 1000000000⟩
    else if seconds < 0 then ⟨t.seconds + 1 + seconds, t.nanos - 1000000000⟩
    else t
  else ⟨t.seconds + seconds, t.nanos⟩

/-- The calendar has the day of the instant. -/
def inCalendar (t : Instant) : Bool :=
  let (year, month, day) := Calendar.partsOfDay (t.seconds.fdiv 86400)
  Calendar.hasDay year month day

/-- The fraction of a second: none, or three, six or nine digits as needed. -/
def fractionText (nanos : Nat) : String :=
  if nanos = 0 then ""
  else if nanos % 1000000 = 0 then "." ++ Calendar.padded 3 (nanos / 1000000)
  else if nanos % 1000 = 0 then "." ++ Calendar.padded 6 (nanos / 1000)
  else "." ++ Calendar.padded 9 nanos

/-- The text of an instant in universal time. -/
def text (t : Instant) : String :=
  let (year, month, day) := Calendar.partsOfDay (t.seconds.fdiv 86400)
  let second := (t.seconds.fmod 86400).toNat
  let leap := 1000000000 ≤ t.nanos
  Calendar.yearText year ++ "-" ++ Calendar.padded 2 month ++ "-" ++ Calendar.padded 2 day ++
    "T" ++ Calendar.padded 2 (second / 3600) ++ ":" ++
    Calendar.padded 2 (second / 60 % 60) ++ ":" ++
    Calendar.padded 2 (second % 60 + if leap then 1 else 0) ++
    fractionText (if leap then t.nanos - 1000000000 else t.nanos) ++ "Z"

/-- The instant of a date and a time of day at an offset from universal time, in seconds. The
sixtieth second of a minute is a leap second. The calendar must have the day of the instant in
universal time too. -/
def ofLocal? (date : Date) (hour minute second nanos : Nat) (offset : Int) : Option Instant :=
  if hour < 24 ∧ minute < 60 ∧ second ≤ 60 then
    let ofDay : Int := hour * 3600 + minute * 60 + (min second 59 : Nat)
    let t : Instant := ⟨date.dayNumber * 86400 + ofDay - offset,
      if second = 60 then nanos + 1000000000 else nanos⟩
    if t.inCalendar then some t else none
  else none

end Instant

namespace Calendar

/-- Reads the digits after a decimal point as nanoseconds. Digits beyond the ninth are
dropped. -/
def readNanos? (cs : List Char) : Option (Nat × List Char) :=
  let digits := (cs.take 9).takeWhile Char.isDigit
  if digits.isEmpty then none
  else
    some (digitsValue digits * tenTo (9 - digits.length),
      (cs.drop digits.length).dropWhile Char.isDigit)

/-- Reads a fraction of a second, if there is one. -/
def readFraction? : List Char → Option (Nat × List Char)
  | '.' :: rest => readNanos? rest
  | rest => some (0, rest)

/-- Two decimal digits. -/
def twoDigits? (a b : Char) : Option Nat :=
  if a.isDigit && b.isDigit then some (digitsValue [a, b]) else none

/-- Reads an offset from universal time in seconds: a `Z`, or a sign, hours and minutes. What
may stand between hours and minutes is read by `gap`. -/
def readOffset? (gap : List Char → Option (List Char)) : List Char → Option (Int × List Char)
  | [] => none
  | sign :: rest =>
    if sign = 'Z' ∨ sign = 'z' then some (0, rest)
    else
      let negative? : Option Bool :=
        if sign = '+' then some false
        else if sign = '-' ∨ sign = '\u2212' then some true
        else none
      match negative?, rest with
      | some negative, a :: b :: rest => do
        let hours ← twoDigits? a b
        match ← gap rest with
        | c :: d :: rest =>
          let minutes ← twoDigits? c d
          if minutes < 60 ∧ hours < 24 then
            let size : Int := hours * 3600 + minutes * 60
            return (if negative then -size else size, rest)
          else none
        | _ => none
      | _, _ => none

/-- Drops the letter or blank between date and time. -/
def readTimeMark? : List Char → Option (List Char)
  | c :: rest => if c = 'T' ∨ c = 't' ∨ c = ' ' then some rest else none
  | [] => none

/-- A gap that is any mix of colons and blanks. -/
def looseGap (cs : List Char) : Option (List Char) :=
  some (cs.dropWhile fun c => c == ':' || Text.isBlank c)

/-- Reads an offset, or the name of universal time. -/
def readZone? : List Char → Option (Int × List Char)
  | a :: b :: c :: rest =>
    if a.toUpper = 'U' ∧ b.toUpper = 'T' ∧ c.toUpper = 'C' then some (0, rest)
    else readOffset? looseGap (a :: b :: c :: rest)
  | cs => readOffset? looseGap cs

/-- Reads an instant in which blanks may stand around each part. -/
def readInstant? (cs : List Char) : Option (Instant × List Char) := do
  let (date, cs) ← readDate? true cs
  let cs ← readTimeMark? cs
  let (hour, cs) ← readSmall? cs
  let cs ← readChar? ':' (skipBlanks cs)
  let (minute, cs) ← readSmall? cs
  let cs ← readChar? ':' (skipBlanks cs)
  let (second, cs) ← readSmall? cs
  let (nanos, cs) ← readFraction? cs
  let (offset, cs) ← readZone? (skipBlanks cs)
  let instant ← Instant.ofLocal? date hour minute second nanos offset
  return (instant, cs)

/-- The date of an instant that is written with four-digit year and two-digit parts, as it
stands there. -/
def readOffsetDate? (cs : List Char) : Option Date := do
  let (year, cs) ← readDigits? 4 4 cs
  let cs ← readChar? '-' cs
  let (month, cs) ← readDigits? 2 2 cs
  let cs ← readChar? '-' cs
  let (day, cs) ← readDigits? 2 2 cs
  let cs ← readTimeMark? cs
  let (hour, cs) ← readDigits? 2 2 cs
  let cs ← readChar? ':' cs
  let (minute, cs) ← readDigits? 2 2 cs
  let cs ← readChar? ':' cs
  let (second, cs) ← readDigits? 2 2 cs
  let (nanos, cs) ← readFraction? cs
  let (offset, cs) ← readOffset? (readChar? ':') cs
  let date ← Date.ofParts? year month day
  let _ ← Instant.ofLocal? date hour minute second nanos offset
  if cs.isEmpty then return date else none

end Calendar

namespace Instant

/-- The instant that a text stands for. -/
def parse? (s : String) : Option Instant :=
  match Calendar.readInstant? s.toList with
  | some (t, rest) => if (Calendar.skipBlanks rest).isEmpty then some t else none
  | none => none

end Instant

end Cohort
