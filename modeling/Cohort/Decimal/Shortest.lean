import Cohort.Decimal.Binary

/-!
# Shortest decimal digits of a double

Every finite double is the nearest double to a whole interval of decimals. Its
shortest digits are those of the decimal in that interval with the fewest digits,
and of those the one nearest to the double itself. Where the double lies halfway
between two of them, a rule decides which one is taken.

## Main definitions

* `Decimal.Digits` — an integer coefficient and a power of ten
* `Decimal.Tie` — the rules for halves
* `Decimal.shortest` — the shortest digits of a positive double
-/

namespace Cohort.Decimal

/-- The decimal number `coefficient * 10 ^ exponent`. -/
structure Digits where
  coefficient : Nat
  exponent : Int
  deriving DecidableEq, Repr

/-- Which of two decimals that are equally near is taken. -/
inductive Tie where
  /-- The one with an even coefficient. -/
  | even
  /-- The larger one. -/
  | up
  deriving DecidableEq, Repr

/-- Of a coefficient and the next one, which are equally near, the first is taken. -/
def Tie.takesFloor : Tie → Nat → Bool
  | .even, floor => floor % 2 == 0
  | .up, _ => false

/-- The interval of numbers that round to `magnitude * 2 ^ exponent`, in quarters of the unit
`2 ^ exponent`. Below a power of two the doubles lie twice as dense. -/
structure Interval where
  low : Nat
  middle : Nat
  high : Nat
  /-- The ends belong to the interval. -/
  closed : Bool

/-- The rounding interval of a double. -/
def Interval.around (magnitude : Nat) (exponent : Int) : Interval :=
  let below := if magnitude = twoTo 52 ∧ -1074 < exponent then 1 else 2
  { low := 4 * magnitude - below
    middle := 4 * magnitude
    high := 4 * magnitude + 2
    closed := magnitude % 2 == 0 }

/-- Tests the two neighbours of the number on the grid of multiples of `10 ^ place`. Both sides
of every comparison are multiplied by the denominators. -/
def onGrid (tie : Tie) (i : Interval) (exponent place : Int) : Option Nat :=
  let gridUp := tenTo place.toNat
  let gridDown := tenTo (-place).toNat
  let quarter := exponent - 2
  let numberUp := twoTo quarter.toNat * gridDown
  let gridUnit := gridUp * twoTo (-quarter).toNat
  let floor := i.middle * numberUp / gridUnit
  let inside (d : Nat) : Bool :=
    let here := d * gridUnit
    if i.closed then i.low * numberUp ≤ here && here ≤ i.high * numberUp
    else i.low * numberUp < here && here < i.high * numberUp
  match inside floor, inside (floor + 1) with
  | true, true =>
    let down := i.middle * numberUp - floor * gridUnit
    let up := (floor + 1) * gridUnit - i.middle * numberUp
    if down < up ∨ (down = up ∧ tie.takesFloor floor) then some floor else some (floor + 1)
  | true, false => some floor
  | false, true => some (floor + 1)
  | false, false => none

/-- Tries the grids from coarse to fine and takes the first that meets the interval. -/
def shortestFrom (tie : Tie) (i : Interval) (exponent : Int) : Nat → Int → Digits
  | 0, place => ⟨i.middle, place⟩
  | tries + 1, place =>
    match onGrid tie i exponent place with
    | some coefficient => ⟨coefficient, place⟩
    | none => shortestFrom tie i exponent tries (place - 1)

/-- The shortest digits of `magnitude * 2 ^ exponent`. The search starts above the number and
needs no more than seventeen digits. -/
def shortest (tie : Tie) (magnitude : Nat) (exponent : Int) : Digits :=
  let bits : Int := Nat.log2 magnitude + 1 + exponent
  let start : Int := (bits * 30103).fdiv 100000 + 2
  shortestFrom tie (Interval.around magnitude exponent) exponent 24 start

end Cohort.Decimal
