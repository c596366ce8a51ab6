import Cohort.Decimal.Binary
import Cohort.Decimal.Reader
import Cohort.Json.Parser

/-!
# Numbers in TOML

An integer has 64 bits and is written in decimal digits, or without a sign in the
digits of another base. A number with a fraction or an exponent is a double. A single
underscore may stand between two digits, and a whole number has no leading zero.

## Main definitions

* `Toml.readNumber?` — one number
-/

namespace Cohort.Toml

/-- Splits off digits, with single underscores between them left out. -/
def spanDigits (isDigit : Char → Bool) : List Char → List Char × List Char
  | [] => ([], [])
  | '_' :: c :: rest =>
    if isDigit c then
      let (digits, after) := spanDigits isDigit rest
      (c :: digits, after)
    else ([], '_' :: c :: rest)
  | c :: rest =>
    if isDigit c then
      let (digits, after) := spanDigits isDigit rest
      (c :: digits, after)
    else ([], c :: rest)

/-- Reads digits, of which there is at least one. -/
def readDigits? (isDigit : Char → Bool) : List Char → Option (List Char × List Char)
  | [] => none
  | c :: rest =>
    if isDigit c then
      let (digits, after) := spanDigits isDigit rest
      some (c :: digits, after)
    else none

/-- Reads the digits of a whole number: a zero alone, or digits that begin with another one. -/
def readWhole? : List Char → Option (List Char × List Char)
  | '0' :: rest => some (['0'], rest)
  | cs => readDigits? Char.isDigit cs

/-- An integer of 64 bits. -/
def ofInt? (i : Int) : Option Json := if isSigned64 i then some (.int i) else none

/-- Reads an integer in the digits of a base. -/
def readBased? (base : Nat) (cs : List Char) : Option (Json × List Char) := do
  let isDigit (c : Char) : Bool := (Json.hexValue? c).any fun d => decide (d < base)
  let (digits, rest) ← readDigits? isDigit cs
  let values ← digits.mapM Json.hexValue?
  let value ← ofInt? (values.foldl (fun n d => base * n + d) 0 : Nat)
  return (value, rest)

/-- Reads the digits after a point, if there is one. -/
def readFraction? : List Char → Option (List Char × List Char)
  | '.' :: rest => readDigits? Char.isDigit rest
  | rest => some ([], rest)

/-- Reads an exponent, if there is one. -/
def readPower? : List Char → Option (Option Int × List Char)
  | [] => some (none, [])
  | c :: rest =>
    if c = 'e' ∨ c = 'E' then do
      let (negative, rest) := Decimal.spanSign rest
      let (digits, after) ← readDigits? Char.isDigit rest
      let n := Decimal.digitsValue digits
      return (some (if negative then -(n : Int) else (n : Int)), after)
    else some (none, c :: rest)

/-- Reads a decimal number behind its sign. One that is too large for a double is refused, unless
it is negative. -/
def readDecimal? (negative : Bool) (cs : List Char) : Option (Json × List Char) := do
  let (whole, rest) ← readWhole? cs
  let (fraction, rest) ← readFraction? rest
  let (power?, rest) ← readPower? rest
  if fraction.isEmpty && power?.isNone then
    let n := Decimal.digitsValue whole
    let value ← ofInt? (if negative then -(n : Int) else (n : Int))
    return (value, rest)
  else
    let x := Decimal.scaled negative (Decimal.digitsValue (whole ++ fraction))
      (power?.getD 0 - fraction.length)
    if negative || Decimal.isFinite x then return (.float x, rest) else none

/-- Reads a number, or the name of one that has no digits. -/
def readNumber? (cs : List Char) : Option (Json × List Char) :=
  match cs with
  | '0' :: 'x' :: rest => readBased? 16 rest
  | '0' :: 'o' :: rest => readBased? 8 rest
  | '0' :: 'b' :: rest => readBased? 2 rest
  | _ =>
    match Decimal.spanSign cs with
    | (negative, 'i' :: 'n' :: 'f' :: rest) =>
      some (.float (if negative then -Decimal.infinity else Decimal.infinity), rest)
    | (_, 'n' :: 'a' :: 'n' :: rest) => some (.float Decimal.undefinedNumber, rest)
    | (negative, rest) => readDecimal? negative rest

end Cohort.Toml
