import Cohort.Text.Blank

/-!
# Dates

Days of the proleptic Gregorian calendar with their order, their text, and the day
count from 1 January 1970.

## Main definitions

* `Date` — a year, month and day that the calendar has
* `Date.text` — `2024-01-31`, with a sign for years that have not four digits
* `Date.dayNumber`, `Date.ofDayNumber` — the day count
* `Calendar.Field` readers — the number grammar shared by dates and instants
-/

namespace Cohort

namespace Calendar

/-- A leap year has a day more in February. -/
def isLeapYear (year : Int) : Bool :=
  year % 4 == 0 && (year % 100 != 0 || year % 400 == 0)

/-- The number of days of a month. -/
def monthLength (year : Int) (month : Nat) : Nat :=
  if month = 2 then if isLeapYear year then 29 else 28
  else if month = 4 ∨ month = 6 ∨ month = 9 ∨ month = 11 then 30
  else 31

/-- The calendar has this day. Its years reach from -262143 to 262142. -/
def hasDay (year : Int) (month day : Nat) : Bool :=
  decide (-262143 ≤ year ∧ year ≤ 262142) && decide (1 ≤ month ∧ month ≤ 12) &&
    decide (1 ≤ day ∧ day ≤ monthLength year month)

/-- A number with at least so many digits. -/
def padded (width n : Nat) : String :=
  let digits := (Nat.repr n).toList
  String.ofList (List.replicate (width - digits.length) '0' ++ digits)

/-- A year: four digits, or a sign and at least four digits where these do not suffice. -/
def yearText (year : Int) : String :=
  if 0 ≤ year ∧ year ≤ 9999 then padded 4 year.toNat
  else if year < 0 then "-" ++ padded 4 year.natAbs
  else "+" ++ padded 4 year.natAbs

end Calendar

/-- A day of the calendar. -/
structure Date where
  year : Int
  month : Nat
  day : Nat
  inCalendar : Calendar.hasDay year month day = true
  deriving DecidableEq, Repr

namespace Date

/-- The day with these numbers, if the calendar has it. -/
def ofParts? (year : Int) (month day : Nat) : Option Date :=
  if h : Calendar.hasDay year month day = true then some ⟨year, month, day, h⟩ else none

/-- Earlier years, months and days come first. -/
def compare (a b : Date) : Ordering :=
  (Ord.compare a.year b.year).then
    ((Ord.compare a.month b.month).then (Ord.compare a.day b.day))

/-- The text of a date. -/
def text (d : Date) : String :=
  Calendar.yearText d.year ++ "-" ++ Calendar.padded 2 d.month ++ "-" ++
    Calendar.padded 2 d.day

/-- Days since 1 January 1970. Years are counted from March, so that the leap day is the last
one. -/
def dayNumber (d : Date) : Int :=
  let year := if d.month ≤ 2 then d.year - 1 else d.year
  let era := year.fdiv 400
  let yearOfEra := year - era * 400
  let month : Int := if 2 < d.month then d.month - 3 else d.month + 9
  let dayOfYear := (153 * month + 2) / 5 + d.day - 1
  let dayOfEra := yearOfEra * 365 + yearOfEra / 4 - yearOfEra / 100 + dayOfYear
  era * 146097 + dayOfEra - 719468

end Date

namespace Calendar

/-- The year, month and day of a day number. -/
def partsOfDay (number : Int) : Int × Nat × Nat :=
  let z := number + 719468
  let era := z.fdiv 146097
  let dayOfEra := z - era * 146097
  let yearOfEra := (dayOfEra - dayOfEra / 1460 + dayOfEra / 36524 - dayOfEra / 146096) / 365
  let dayOfYear := dayOfEra - (365 * yearOfEra + yearOfEra / 4 - yearOfEra / 100)
  let shifted := (5 * dayOfYear + 2) / 153
  let day := dayOfYear - (153 * shifted + 2) / 5 + 1
  let month := if shifted < 10 then shifted + 3 else shifted - 9
  let year := yearOfEra + era * 400
  (if month ≤ 2 then year + 1 else year, month.toNat, day.toNat)

/-- The value of a run of digits. -/
def digitsValue (cs : List Char) : Nat :=
  cs.foldl (fun n c => 10 * n + (c.toNat - 48)) 0

/-- Reads at least `least` and at most `most` digits. -/
def readDigits? (least most : Nat) (cs : List Char) : Option (Nat × List Char) :=
  let digits := (cs.take most).takeWhile Char.isDigit
  if digits.length < least then none
  else some (digitsValue digits, cs.drop digits.length)

/-- Reads one given character. -/
def readChar? (c : Char) : List Char → Option (List Char)
  | d :: rest => if d = c then some rest else none
  | [] => none

/-- Drops leading blanks. -/
def skipBlanks (cs : List Char) : List Char := cs.dropWhile Text.isBlank

/-- Reads a year after blanks: up to four digits, or a sign and any number of digits. -/
def readYear? (cs : List Char) : Option (Int × List Char) :=
  match skipBlanks cs with
  | '-' :: rest => (readDigits? 1 rest.length rest).map fun (n, r) => (-(n : Int), r)
  | '+' :: rest => (readDigits? 1 rest.length rest).map fun (n, r) => ((n : Int), r)
  | rest => (readDigits? 1 4 rest).map fun (n, r) => ((n : Int), r)

/-- Reads one or two digits after blanks. -/
def readSmall? (cs : List Char) : Option (Nat × List Char) := readDigits? 1 2 (skipBlanks cs)

/-- Reads a date whose parts may follow blanks. With `loose` blanks may also come before the
hyphens. -/
def readDate? (loose : Bool) (cs : List Char) : Option (Date × List Char) := do
  let gap (cs : List Char) : List Char := if loose then skipBlanks cs else cs
  let (year, cs) ← readYear? cs
  let cs ← readChar? '-' (gap cs)
  let (month, cs) ← readSmall? cs
  let cs ← readChar? '-' (gap cs)
  let (day, cs) ← readSmall? cs
  let date ← Date.ofParts? year month day
  return (date, cs)

end Calendar

namespace Date

/-- The date that a text stands for: year, month and day with hyphens between them. -/
def parse? (s : String) : Option Date :=
  match Calendar.readDate? false s.toList with
  | some (date, []) => some date
  | _ => none

/-- The date that a text stands for, where blanks may stand around each part. -/
def parseLoose? (s : String) : Option Date :=
  match Calendar.readDate? true s.toList with
  | some (date, rest) => if (Calendar.skipBlanks rest).isEmpty then some date else none
  | none => none

end Date

end Cohort
