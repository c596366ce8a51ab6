/-!
# Reading numbers

A number text has an optional sign, digits with an optional point, and an optional
exponent; or it names an infinity or the undefined number.

## Main definitions

* `Decimal.scaled` — the double nearest to a decimal
* `Decimal.ofWhole` — the double nearest to an integer
* `Decimal.readFloat?` — the double that a text stands for
* `Decimal.readInteger?`, `Decimal.readNatural?` — the integer that a text stands for
-/

namespace Cohort.Decimal

/-- The value of a digit. -/
def digitValue (c : Char) : Nat := c.toNat - 48

/-- The value of a run of digits. -/
def digitsValue (cs : List Char) : Nat := cs.foldl (fun n c => 10 * n + digitValue c) 0

/-- Splits off the leading digits. -/
def spanDigits (cs : List Char) : List Char × List Char :=
  (cs.takeWhile Char.isDigit, cs.dropWhile Char.isDigit)

/-- The positive infinity. -/
def infinity : Float := 1.0 / 0.0

/-- The undefined number. -/
def undefinedNumber : Float := 0.0 / 0.0

/-- The double nearest to `coefficient * 10 ^ exponent`. Powers of ten that are out of the range
of doubles are decided by the size of the number alone. -/
def scaled (negative : Bool) (coefficient : Nat) (exponent : Int) : Float :=
  let size : Int := exponent + (Nat.repr coefficient).length
  let x : Float :=
    if coefficient = 0 then 0.0
    else if 400 < size then infinity
    else if size < -400 then 0.0
    else Float.ofScientific coefficient (decide (exponent < 0)) exponent.natAbs
  if negative then -x else x

/-- The double nearest to an integer. -/
def ofWhole (i : Int) : Float := scaled (decide (i < 0)) i.natAbs 0

/-- Splits off a sign: whether it is a minus, and the rest. -/
def spanSign : List Char → Bool × List Char
  | '-' :: rest => (true, rest)
  | '+' :: rest => (false, rest)
  | rest => (false, rest)

/-- The exponent part of a number, which must be all that is left. -/
def readExponent? : List Char → Option Int
  | [] => some 0
  | c :: rest =>
    if c = 'e' ∨ c = 'E' then
      let (negative, digits) := spanSign rest
      if digits.isEmpty || !digits.all Char.isDigit then none
      else
        let n := digitsValue digits
        some (if negative then -(n : Int) else (n : Int))
    else none

/-- Digits with an optional point and exponent. Either side of the point may be empty, not both. -/
def readDecimal? (negative : Bool) (cs : List Char) : Option Float :=
  let (whole, rest) := spanDigits cs
  let (fraction, rest) : List Char × List Char :=
    match rest with
    | '.' :: after => spanDigits after
    | _ => ([], rest)
  if whole.isEmpty && fraction.isEmpty then none
  else
    (readExponent? rest).map fun e =>
      scaled negative (digitsValue (whole ++ fraction)) (e - fraction.length)

/-- The double that a text without surrounding blanks stands for. -/
def readFloat? (s : String) : Option Float :=
  let (negative, body) := spanSign s.toList
  let name := String.ofList (body.map Char.toLower)
  if name == "inf" || name == "infinity" then
    some (if negative then -infinity else infinity)
  else if name == "nan" then
    some (if negative then -undefinedNumber else undefinedNumber)
  else readDecimal? negative body

/-- The number that a text of digits stands for. -/
def readDigits? (cs : List Char) : Option Nat :=
  if cs.isEmpty || !cs.all Char.isDigit then none else some (digitsValue cs)

/-- The integer that digits with an optional sign stand for. -/
def readInteger? (s : String) : Option Int :=
  let (negative, digits) := spanSign s.toList
  (readDigits? digits).map fun n => if negative then -(n : Int) else (n : Int)

/-- The number that digits with an optional plus sign stand for. -/
def readNatural? (s : String) : Option Nat :=
  let (negative, digits) := spanSign s.toList
  if negative then none else readDigits? digits

end Cohort.Decimal
