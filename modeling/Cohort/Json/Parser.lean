import Cohort.Json.Basic
import Cohort.Json.Outline
import Cohort.Decimal.Binary
import Cohort.Decimal.Rough

/-!
# Reading JSON

A reader of JSON text. A text may be nested at most 127 deep, numbers are read roughly
and must be in the range of doubles, and nothing but blanks may follow the value. In
parts that are passed over, depth, numbers and surrogates do not matter.

## Main definitions

* `Json.parse?` — the value that a text stands for, with all members of its objects
* `Json.parseOutline?` — the same without the members that are passed over
* `Json.skipValue?` — passes over a value
-/

namespace Cohort.Json

/-- The blanks of JSON. -/
def isSpace (c : Char) : Bool := c == ' ' || c == '\n' || c == '\t' || c == '\r'

/-- Drops leading blanks. -/
def skipSpace (cs : List Char) : List Char := cs.dropWhile isSpace

/-- The value of a hexadecimal digit. -/
def hexValue? (c : Char) : Option Nat :=
  if '0' ≤ c ∧ c ≤ '9' then some (c.toNat - 48)
  else if 'a' ≤ c ∧ c ≤ 'f' then some (c.toNat - 87)
  else if 'A' ≤ c ∧ c ≤ 'F' then some (c.toNat - 55)
  else none

/-- The value of four hexadecimal digits. -/
def hexCode? (a b c d : Char) : Option Nat := do
  let a ← hexValue? a
  let b ← hexValue? b
  let c ← hexValue? c
  let d ← hexValue? d
  return ((a * 16 + b) * 16 + c) * 16 + d

/-- The character of a one-letter escape. -/
def escaped? (c : Char) : Option Char :=
  if c = '"' ∨ c = '\\' ∨ c = '/' then some c
  else if c = 'b' then some (Char.ofNat 8)
  else if c = 'f' then some (Char.ofNat 12)
  else if c = 'n' then some '\n'
  else if c = 'r' then some '\r'
  else if c = 't' then some '\t'
  else none

/-- Reads a text up to its closing quote. Two escapes that are a surrogate pair stand for one
character; a surrogate alone is refused. -/
def readText? : List Char → Option (List Char × List Char)
  | [] => none
  | '"' :: rest => some ([], rest)
  | '\\' :: 'u' :: a :: b :: c :: d :: rest =>
    match hexCode? a b c d with
    | none => none
    | some code =>
      if 0xD800 ≤ code ∧ code < 0xDC00 then
        match rest with
        | '\\' :: 'u' :: e :: f :: g :: h :: after =>
          match hexCode? e f g h with
          | none => none
          | some low =>
            if 0xDC00 ≤ low ∧ low < 0xE000 then
              let full := 0x10000 + (code - 0xD800) * 0x400 + (low - 0xDC00)
              (readText? after).map fun (s, r) => (Char.ofNat full :: s, r)
            else none
        | _ => none
      else if 0xDC00 ≤ code ∧ code < 0xE000 then none
      else (readText? rest).map fun (s, r) => (Char.ofNat code :: s, r)
  | '\\' :: c :: rest =>
    match escaped? c with
    | none => none
    | some e => (readText? rest).map fun (s, r) => (e :: s, r)
  | c :: rest =>
    if c = '\\' ∨ c.toNat < 32 then none
    else (readText? rest).map fun (s, r) => (c :: s, r)

/-- The integer that is read for an integer text: it fits into 64 bits and is not a negative
zero. -/
def ofInteger? (negative : Bool) (n : Nat) : Option Int :=
  if negative then if n = 0 ∨ twoTo 63 < n then none else some (-(n : Int))
  else if isUnsigned 64 n then some n
  else none

/-- Reads the fraction of a number: a point and at least one digit, or nothing. -/
def readFraction? : List Char → Option (List Char × List Char)
  | '.' :: rest =>
    let (digits, after) := Decimal.spanDigits rest
    if digits.isEmpty then none else some (digits, after)
  | rest => some ([], rest)

/-- Reads the exponent of a number: its value, if it has one. -/
def readPower? : List Char → Option (Option Int × List Char)
  | [] => some (none, [])
  | c :: rest =>
    if c = 'e' ∨ c = 'E' then
      let (negative, rest) := Decimal.spanSign rest
      let (digits, after) := Decimal.spanDigits rest
      let n := Decimal.digitsValue digits
      if digits.isEmpty then none
      else some (some (if negative then -(n : Int) else (n : Int)), after)
    else some (none, c :: rest)

/-- A number as it is written. -/
structure WrittenNumber where
  negative : Bool
  whole : List Char
  fraction : List Char
  power? : Option Int

/-- The integer that a number is, if it is written as one and fits. -/
def WrittenNumber.integer? (n : WrittenNumber) : Option Int :=
  if n.fraction.isEmpty && n.power?.isNone then
    ofInteger? n.negative (Decimal.digitsValue n.whole)
  else none

/-- The value of a number: an integer if it is one, and else a double. -/
def WrittenNumber.value (n : WrittenNumber) : Json :=
  match n.integer? with
  | some i => .int i
  | none => .float (Decimal.roughly n.negative n.whole n.fraction (n.power?.getD 0))

/-- Splits off a number. A leading zero stands alone. -/
def spanNumber? (cs : List Char) : Option (WrittenNumber × List Char) := do
  let (negative, cs) : Bool × List Char :=
    match cs with
    | '-' :: rest => (true, rest)
    | _ => (false, cs)
  let (whole, rest) := Decimal.spanDigits cs
  if whole.isEmpty || (whole.head? == some '0' && 1 < whole.length) then none
  let (fraction, rest) ← readFraction? rest
  let (power?, rest) ← readPower? rest
  return (⟨negative, whole, fraction, power?⟩, rest)

/-- Reads a number. One that is out of the range of doubles is refused. -/
def readNumber? (cs : List Char) : Option (Json × List Char) := do
  let (n, rest) ← spanNumber? cs
  match n.value with
  | .float x => if Decimal.isFinite x then return (.float x, rest) else none
  | j => return (j, rest)

/-! ## Passing over values -/

/-- Passes over a text up to its closing quote. A surrogate may stand alone. -/
def skipText? : List Char → Option (List Char)
  | [] => none
  | '"' :: rest => some rest
  | '\\' :: 'u' :: a :: b :: c :: d :: rest =>
    if (hexCode? a b c d).isSome then skipText? rest else none
  | '\\' :: c :: rest => if (escaped? c).isSome then skipText? rest else none
  | c :: rest => if c = '\\' ∨ c.toNat < 32 then none else skipText? rest

mutual

/-- Passes over a value, however deep it is nested. The number bounds the steps. -/
def skipValue? : Nat → List Char → Option (List Char)
  | 0, _ => none
  | fuel + 1, cs =>
    match skipSpace cs with
    | 'n' :: 'u' :: 'l' :: 'l' :: rest => some rest
    | 't' :: 'r' :: 'u' :: 'e' :: rest => some rest
    | 'f' :: 'a' :: 'l' :: 's' :: 'e' :: rest => some rest
    | '"' :: rest => skipText? rest
    | '[' :: rest =>
      match skipSpace rest with
      | ']' :: after => some after
      | _ => skipItems? fuel rest
    | '\x7b' :: rest =>
      match skipSpace rest with
      | '\x7d' :: after => some after
      | _ => skipMembers? fuel rest
    | cs => (spanNumber? cs).map Prod.snd
termination_by structural fuel => fuel

/-- Passes over the items of a list that is not empty, and its closing bracket. -/
def skipItems? : Nat → List Char → Option (List Char)
  | 0, _ => none
  | fuel + 1, cs =>
    match skipValue? fuel cs with
    | none => none
    | some rest =>
      match skipSpace rest with
      | ']' :: after => some after
      | ',' :: after => skipItems? fuel after
      | _ => none
termination_by structural fuel => fuel

/-- Passes over the members of an object that is not empty, and its closing brace. -/
def skipMembers? : Nat → List Char → Option (List Char)
  | 0, _ => none
  | fuel + 1, cs =>
    match skipSpace cs with
    | '"' :: rest =>
      match (skipText? rest).map skipSpace with
      | some (':' :: rest) =>
        match (skipValue? fuel rest).map skipSpace with
        | some ('\x7d' :: after) => some after
        | some (',' :: after) => skipMembers? fuel after
        | _ => none
      | _ => none
    | _ => none
termination_by structural fuel => fuel

end

/-! ## Reading values -/

mutual

/-- Reads a value in outline. `depth` bounds the nesting, `fuel` the number of steps. -/
def readValue? (o : Outline) (depth : Nat) : Nat → List Char → Option (Json × List Char)
  | 0, _ => none
  | fuel + 1, cs =>
    match skipSpace cs with
    | 'n' :: 'u' :: 'l' :: 'l' :: rest => some (.null, rest)
    | 't' :: 'r' :: 'u' :: 'e' :: rest => some (.bool true, rest)
    | 'f' :: 'a' :: 'l' :: 's' :: 'e' :: rest => some (.bool false, rest)
    | '"' :: rest => (readText? rest).map fun (s, r) => (.text (String.ofList s), r)
    | '[' :: rest =>
      if depth ≤ 1 then none
      else
        match skipSpace rest with
        | ']' :: after => some (.list [], after)
        | _ => (readItems? o 0 (depth - 1) fuel rest).map fun (items, r) => (.list items, r)
    | '\x7b' :: rest =>
      if depth ≤ 1 then none
      else
        match skipSpace rest with
        | '\x7d' :: after => some (.object [], after)
        | _ => (readMembers? o (depth - 1) fuel rest).map fun (ms, r) => (.object ms, r)
    | cs => readNumber? cs
termination_by structural fuel => fuel

/-- Reads the items of a list from a position on, of which there is at least one, and its closing
bracket. -/
def readItems? (o : Outline) (position depth : Nat) :
    Nat → List Char → Option (List Json × List Char)
  | 0, _ => none
  | fuel + 1, cs =>
    match readValue? (o.item position) depth fuel cs with
    | none => none
    | some (j, rest) =>
      match skipSpace rest with
      | ']' :: after => some ([j], after)
      | ',' :: after =>
        (readItems? o (position + 1) depth fuel after).map fun (items, r) => (j :: items, r)
      | _ => none
termination_by structural fuel => fuel

/-- Reads the members of an object that is not empty, and its closing brace. -/
def readMembers? (o : Outline) (depth : Nat) :
    Nat → List Char → Option (List (String × Json) × List Char)
  | 0, _ => none
  | fuel + 1, cs =>
    match skipSpace cs with
    | '"' :: rest =>
      match readText? rest with
      | none => none
      | some (key, rest) =>
        match skipSpace rest with
        | ':' :: rest =>
          match readMember? o (String.ofList key) depth fuel rest with
          | none => none
          | some (member, rest) =>
            match skipSpace rest with
            | '\x7d' :: after => some (member, after)
            | ',' :: after =>
              (readMembers? o depth fuel after).map fun (ms, r) => (member ++ ms, r)
            | _ => none
        | _ => none
    | _ => none
termination_by structural fuel => fuel

/-- Reads the value of a member, or passes over it. -/
def readMember? (o : Outline) (key : String) (depth : Nat) :
    Nat → List Char → Option (List (String × Json) × List Char)
  | 0, _ => none
  | fuel + 1, cs =>
    match o.member? key with
    | none => (skipValue? fuel cs).map fun rest => ([], rest)
    | some o => (readValue? o depth fuel cs).map fun (j, rest) => ([(key, j)], rest)
termination_by structural fuel => fuel

end

/-- The value that a text stands for in outline. -/
def parseOutline? (o : Outline) (s : String) : Option Json :=
  let cs := s.toList
  match readValue? o 128 (3 * cs.length + 3) cs with
  | some (j, rest) => if (skipSpace rest).isEmpty then some j else none
  | none => none

/-- The value that a text stands for. -/
def parse? (s : String) : Option Json := parseOutline? .whole s

end Cohort.Json
