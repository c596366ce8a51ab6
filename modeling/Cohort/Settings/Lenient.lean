import Cohort.Decimal.Reader
import Cohort.Decimal.Written
import Cohort.Power
import Cohort.Settings
import Cohort.Text.Letter

/-!
# Lenient reading of settings

Where settings are read from files and from the environment, a member may be written as
a value of another type, as long as it can be taken for one of its own type: a number
for a text, or a text for a truth value or a number.

## Main definitions

* `Settings.Reader.lenient` — reads members so
-/

namespace Cohort.Settings

/-- Integers that need more than 64 bits with a sign are taken as doubles. -/
def signedOrFloat : Json → Json
  | .int i => if isSigned64 i then .int i else .float (Decimal.ofWhole i)
  | j => j

/-- The words for true. -/
def trueWords : List String := ["true", "on", "yes"]

/-- The words for false. -/
def falseWords : List String := ["false", "off", "no"]

/-- The truth value that a word stands for. -/
def truthOfWord? (s : String) : Option Bool :=
  let word := Text.lower s
  if trueWords.contains word then some true
  else if falseWords.contains word then some false
  else none

/-- The text that a value is taken for. -/
def lenientText? (j : Json) : Option String :=
  match signedOrFloat j with
  | .text s => some s
  | .bool b => some (if b then "true" else "false")
  | .int i => some (toString i)
  | .float x => some (Decimal.writePlain x)
  | _ => none

/-- The truth value that a value is taken for. -/
def lenientTruth? (j : Json) : Option Bool :=
  match signedOrFloat j with
  | .bool b => some b
  | .int i => some (i != 0)
  | .float x => some (x != 0.0)
  | .text s =>
    if s == "1" then some true else if s == "0" then some false else truthOfWord? s
  | _ => none

/-- The largest number of 64 bits. -/
def largestNatural : Nat := twoTo 64 - 1

/-- The natural number nearest to a double, halves away from zero. Negative numbers give zero, and
numbers that are too large the largest number of 64 bits. -/
def roundedNatural (x : Float) : Nat :=
  match Decimal.binary x with
  | .finite true _ _ => 0
  | .finite false magnitude exponent =>
    let n :=
      if 0 ≤ exponent then magnitude * twoTo exponent.toNat
      else
        let unit := twoTo (-exponent).toNat
        (magnitude + unit / 2) / unit
    min n largestNatural
  | .infinite negative => if negative then 0 else largestNatural
  | .undefined => 0

/-- The natural number that a value is taken for. -/
def lenientNatural? (j : Json) : Option Nat :=
  match signedOrFloat j with
  | .int i => if 0 ≤ i then some i.toNat else none
  | .float x => some (roundedNatural x)
  | .bool b => some (if b then 1 else 0)
  | .text s =>
    match truthOfWord? s with
    | some b => some (if b then 1 else 0)
    | none => Decimal.readNatural? s
  | _ => none

/-- The number of so many bits that a value is taken for. -/
def lenientUnsigned? (bits : Nat) (j : Json) : Option Nat :=
  (lenientNatural? j).filter (isUnsigned (min bits 64))

/-- The members of a structure. Of a list, only as many items count as there are members. -/
def lenientShape? (names : List String) : Json → Option Json.Shape
  | .list items => some ⟨true, names.zip items⟩
  | j => j.shape? names

/-- Members may be written as values of other types. -/
def Reader.lenient : Reader where
  shape? := lenientShape?
  text? := lenientText?
  truth? := lenientTruth?
  unsigned? := lenientUnsigned?

end Cohort.Settings
