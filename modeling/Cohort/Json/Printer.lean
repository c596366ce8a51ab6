import Cohort.Json.Basic
import Cohort.Decimal.Written

/-!
# JSON text

Values are written without spaces. Quotes, backslashes and control characters of a
text are escaped, all other characters stand for themselves.

## Main definitions

* `Json.render` — the compact text of a value
-/

namespace Cohort.Json

/-- A hexadecimal digit. -/
def hexDigit (n : Nat) : Char :=
  if n < 10 then Char.ofNat (48 + n) else Char.ofNat (87 + n)

/-- A character inside a JSON text. -/
def escape (c : Char) : List Char :=
  if c = '"' then ['\\', '"']
  else if c = '\\' then ['\\', '\\']
  else if c = '\n' then ['\\', 'n']
  else if c = '\r' then ['\\', 'r']
  else if c = '\t' then ['\\', 't']
  else if c.toNat = 8 then ['\\', 'b']
  else if c.toNat = 12 then ['\\', 'f']
  else if c.toNat < 32 then
    ['\\', 'u', '0', '0', hexDigit (c.toNat / 16), hexDigit (c.toNat % 16)]
  else [c]

/-- A text between quotes. -/
def renderText (s : String) : List Char := '"' :: s.toList.flatMap escape ++ ['"']

mutual

/-- The characters of the compact text of a value. -/
def chars : Json → List Char
  | .null => ['n', 'u', 'l', 'l']
  | .bool true => ['t', 'r', 'u', 'e']
  | .bool false => ['f', 'a', 'l', 's', 'e']
  | .int i => (toString i).toList
  | .float x => (Decimal.writeJson x).toList
  | .text s => renderText s
  | .list items => '[' :: itemChars items ++ [']']
  | .object members => '\x7b' :: memberChars members ++ ['\x7d']
termination_by structural j => j

/-- The characters of a list without its brackets. -/
def itemChars : List Json → List Char
  | [] => []
  | j :: [] => chars j
  | j :: k :: rest => chars j ++ ',' :: itemChars (k :: rest)
termination_by structural js => js

/-- The characters of an object without its braces. -/
def memberChars : List (String × Json) → List Char
  | [] => []
  | (key, j) :: [] => renderText key ++ ':' :: chars j
  | (key, j) :: m :: rest => renderText key ++ ':' :: chars j ++ ',' :: memberChars (m :: rest)
termination_by structural ms => ms

end

/-- The compact text of a value. -/
def render (j : Json) : String := String.ofList (chars j)

end Cohort.Json
