import Cohort.Decimal.Reader
import Cohort.Power

/-!
# Reading numbers roughly

The double nearest to a decimal takes arithmetic with numbers of any size. A rough
reading makes do with 64 bits: it drops the digits that do not fit, rounds the number
that is left to a double, and multiplies or divides that by a power of ten. Each of
these steps may round, so the result can lie next to the nearest double.

## Main definitions

* `Decimal.keepDigits` — the digits that fit into 64 bits
* `Decimal.roughly` — the double that is read for a decimal
-/

namespace Cohort.Decimal

/-- Puts digits behind a number as long as it fits into 64 bits: the number, and how many digits
are dropped. -/
def keepDigits (n : Nat) : List Char → Nat × Nat
  | [] => (n, 0)
  | c :: rest =>
    let longer := 10 * n + digitValue c
    if isUnsigned 64 longer then keepDigits longer rest else (n, rest.length + 1)

/-- The largest exponent of a power of ten that is a double. -/
def largestPower : Nat := 308

/-- The double nearest to a power of ten. -/
def powerOfTen (n : Nat) : Float := scaled false 1 n

/-- A double multiplied by a power of ten. -/
def raised (x : Float) (places : Nat) : Float :=
  if places ≤ largestPower then x * powerOfTen places
  else if x == 0.0 then x
  else infinity

/-- A double below 2⁶⁴ divided by a power of ten. Where one power is not enough two are taken, and
where two are not enough nothing is left. -/
def lowered (x : Float) (places : Nat) : Float :=
  if places ≤ largestPower then x / powerOfTen places
  else if places ≤ 2 * largestPower then
    x / powerOfTen largestPower / powerOfTen (places - largestPower)
  else 0.0

/-- The double that is read for digits before and after a point and a power of ten. -/
def roughly (negative : Bool) (whole fraction : List Char) (power : Int) : Float :=
  let (n, droppedWhole) := keepDigits 0 whole
  let (n, droppedFraction) := keepDigits n fraction
  let exponent : Int := power + droppedWhole + droppedFraction - fraction.length
  let coefficient := scaled false n 0
  let x :=
    if 0 ≤ exponent then raised coefficient exponent.natAbs
    else lowered coefficient exponent.natAbs
  if negative then -x else x

end Cohort.Decimal
