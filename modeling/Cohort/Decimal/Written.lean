import Cohort.Decimal.Shortest

/-!
# Numbers as text

Two ways to write a double with its shortest digits: as a JSON number, which always
shows that it is not an integer, and as a plain number in a query, which never
has an exponent. Of two digits that are equally near, JSON takes the even one and
plain text the larger one.

## Main definitions

* `Decimal.writeJson` — `0.1`, `1000.0`, `1e-6`, `1e+16`
* `Decimal.writePlain` — `0.1`, `0.0000001`, `18446744073709552000`
-/

namespace Cohort.Decimal

/-- A run of zeros. -/
def zeros (n : Nat) : String := String.ofList (List.replicate n '0')

/-- Digits with a decimal point, without an exponent. A number with no fractional digits ends
in `wholeMark`. -/
def positional (d : Digits) (wholeMark : String) : String :=
  let digits := (Nat.repr d.coefficient).toList
  if 0 ≤ d.exponent then
    String.ofList digits ++ zeros d.exponent.toNat ++ wholeMark
  else
    let places := (-d.exponent).toNat
    if places < digits.length then
      let cut := digits.length - places
      String.ofList (digits.take cut) ++ "." ++ String.ofList (digits.drop cut)
    else
      "0." ++ zeros (places - digits.length) ++ String.ofList digits

/-- One digit before the point, and the exponent with its sign. -/
def scientific (d : Digits) : String :=
  let digits := (Nat.repr d.coefficient).toList
  let power : Int := d.exponent + digits.length - 1
  let fraction := digits.drop 1
  String.ofList (digits.take 1) ++
    (if fraction.isEmpty then "" else "." ++ String.ofList fraction) ++
    (if power < 0 then "e-" else "e+") ++ Nat.repr power.natAbs

/-- The sign of a number. -/
def signText (negative : Bool) : String := if negative then "-" else ""

/-- The text of a double in JSON: positional while its decimal exponent is from -5 to 15. JSON
has no text for other doubles than the finite ones, so they are written as `null`. -/
def writeJson (x : Float) : String :=
  match binary x with
  | .finite negative 0 _ => signText negative ++ "0.0"
  | .finite negative magnitude exponent =>
    let d := shortest .even magnitude exponent
    let power : Int := d.exponent + (Nat.repr d.coefficient).length - 1
    signText negative ++
      if -5 ≤ power ∧ power ≤ 15 then positional d ".0" else scientific d
  | _ => "null"

/-- The largest size up to which a whole number is written as an integer. -/
def wholeLimit : Nat := 9000000000000000

/-- The integer that a double equals, if it is below the limit for whole numbers. -/
def smallWhole? (x : Float) : Option Int :=
  (wholeValue? x).filter fun i => i.natAbs < wholeLimit

/-- The text of a double without an exponent. -/
def writePlain (x : Float) : String :=
  match binary x with
  | .finite negative 0 _ => signText negative ++ "0"
  | .finite negative magnitude exponent =>
    signText negative ++ positional (shortest .up magnitude exponent) ""
  | .infinite negative => signText negative ++ "inf"
  | .undefined => "NaN"

/-- The text of a number in a query: small whole numbers as integers, others plainly. -/
def writeNumber (x : Float) : String :=
  match smallWhole? x with
  | some i => toString i
  | none => writePlain x

end Cohort.Decimal
