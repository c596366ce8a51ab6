import Cohort.Power

/-!
# Exact values of binary floating point numbers

A finite double is an integer times a power of two. This module reads that
integer and exponent off the bits, so that printing can work in exact integer
arithmetic.

## Main definitions

* `Decimal.Binary` — a double as sign, magnitude and exponent, an infinity, or not a number
* `Decimal.binary` — the exact value of a double
* `Decimal.wholeValue?` — the integer that a double equals
-/

namespace Cohort.Decimal

/-- What a double stands for. -/
inductive Binary where
  /-- The number `magnitude * 2 ^ exponent`, negated if `negative`. -/
  | finite (negative : Bool) (magnitude : Nat) (exponent : Int)
  /-- An infinity. -/
  | infinite (negative : Bool)
  /-- Not a number. -/
  | undefined
  deriving DecidableEq, Repr

/-- The exact value of a double, read off its bits. -/
def binary (x : Float) : Binary :=
  let bits := x.toBits.toNat
  let negative := decide (twoTo 63 ≤ bits)
  let scale : Nat := bits / twoTo 52 % twoTo 11
  let fraction : Nat := bits % twoTo 52
  if scale = 2047 then
    if fraction = 0 then .infinite negative else .undefined
  else if scale = 0 then .finite negative fraction (-1074)
  else .finite negative (fraction + twoTo 52) ((scale : Int) - 1075)

/-- The number is neither infinite nor undefined. -/
def isFinite (x : Float) : Bool :=
  match binary x with
  | .finite .. => true
  | _ => false

/-- The integer that a double equals, if it equals one. -/
def wholeValue? (x : Float) : Option Int :=
  match binary x with
  | .finite negative magnitude exponent =>
    let size? : Option Nat :=
      if 0 ≤ exponent then some (magnitude * twoTo exponent.toNat)
      else
        let unit := twoTo (-exponent).toNat
        if magnitude % unit = 0 then some (magnitude / unit) else none
    size?.map fun size => if negative then -(size : Int) else (size : Int)
  | _ => none

end Cohort.Decimal
