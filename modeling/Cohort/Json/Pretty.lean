import Cohort.Json.Printer

/-!
# JSON text over several lines

Each item and each member stands on a line of its own, two spaces further in than the
brackets around it. Empty lists and objects stay on one line.

## Main definitions

* `Json.pretty` — the text of a value
-/

namespace Cohort.Json

/-- A line end and the spaces at the start of the next line. -/
def lineAt (depth : Nat) : List Char := '\n' :: List.replicate (2 * depth) ' '

mutual

/-- The characters of the text of a value. -/
def prettyChars (depth : Nat) : Json → List Char
  | .null => chars .null
  | .bool b => chars (.bool b)
  | .int i => chars (.int i)
  | .float x => chars (.float x)
  | .text s => chars (.text s)
  | .list [] => ['[', ']']
  | .list (j :: rest) =>
    '[' :: prettyItems (depth + 1) (j :: rest) ++ lineAt depth ++ [']']
  | .object [] => ['\x7b', '\x7d']
  | .object (m :: rest) =>
    '\x7b' :: prettyMembers (depth + 1) (m :: rest) ++ lineAt depth ++ ['\x7d']
termination_by structural j => j

/-- The characters of the lines of a list. -/
def prettyItems (depth : Nat) : List Json → List Char
  | [] => []
  | j :: [] => lineAt depth ++ prettyChars depth j
  | j :: k :: rest => lineAt depth ++ prettyChars depth j ++ ',' :: prettyItems depth (k :: rest)
termination_by structural js => js

/-- The characters of the lines of an object. -/
def prettyMembers (depth : Nat) : List (String × Json) → List Char
  | [] => []
  | (key, j) :: [] => lineAt depth ++ renderText key ++ ':' :: ' ' :: prettyChars depth j
  | (key, j) :: m :: rest =>
    lineAt depth ++ renderText key ++ ':' :: ' ' :: prettyChars depth j ++
      ',' :: prettyMembers depth (m :: rest)
termination_by structural ms => ms

end

/-- The text of a value over several lines. -/
def pretty (j : Json) : String := String.ofList (prettyChars 0 j)

end Cohort.Json
