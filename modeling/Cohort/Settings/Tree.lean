import Cohort.Assoc
import Cohort.Decimal.Reader
import Cohort.Json.Basic
import Cohort.Power
import Cohort.Text.Letter

/-!
# Trees of settings

Settings are collected in a tree of tables. A value is put at a path, which is written
as names with dots between them, and with indices of lists in brackets; a negative index
counts from the end. Names of tables and members are known by their small letters.
Tables that are put on tables are merged with them; any other value replaces what was
there.

## Main definitions

* `Settings.Step`, `Settings.path?` — paths and their texts
* `Settings.put?` — puts a value at a path
* `Settings.merged` — puts a value on another one
-/

namespace Cohort.Settings

/-- A step of a path. -/
inductive Step where
  | member (key : String)
  | item (index : Int)
  deriving DecidableEq, Repr

/-- A character of a name in a path. -/
def isNameChar (c : Char) : Bool := c.isAlphanum || c == '_' || c == '-' || c == ' '

/-- Splits off a name, which must not be empty. -/
def spanName? (cs : List Char) : Option (Step × List Char) :=
  let name := cs.takeWhile isNameChar
  if name.isEmpty then none else some (.member (String.ofList name), cs.drop name.length)

/-- A blank beside an index. -/
def isIndexBlank (c : Char) : Bool := c == ' ' || c == '\t'

/-- Splits off an index with its closing bracket. -/
def spanIndex? (cs : List Char) : Option (Step × List Char) := do
  let cs := cs.dropWhile isIndexBlank
  let (negative, cs) : Bool × List Char :=
    match cs with
    | '-' :: rest => (true, rest)
    | _ => (false, cs)
  let (digits, rest) := Decimal.spanDigits cs
  let n ← Decimal.readDigits? digits
  let index : Int := if negative then -(n : Int) else n
  match rest.dropWhile isIndexBlank with
  | ']' :: rest => if isSigned64 index then return (.item index, rest) else none
  | _ => none

/-- The steps after the first name. The number bounds how many. -/
def laterSteps? : Nat → List Char → Option (List Step)
  | _, [] => some []
  | n + 1, '.' :: rest => do
    let (step, rest) ← spanName? rest
    return step :: (← laterSteps? n rest)
  | n + 1, '[' :: rest => do
    let (step, rest) ← spanIndex? rest
    return step :: (← laterSteps? n rest)
  | _, _ => none

/-- The path that a text stands for. -/
def path? (s : String) : Option (List Step) := do
  let (first, rest) ← spanName? s.toList
  return first :: (← laterSteps? rest.length rest)

/-- The members of a table; another value is taken for an empty one. -/
def membersOf : Json → List (String × Json)
  | .object members => members
  | _ => []

/-- The items of a list; another value is taken for an empty one. -/
def itemsOf : Json → List Json
  | .list items => items
  | _ => []

/-- The value under a key, or an empty table. -/
def under (key : String) (members : List (String × Json)) : Json :=
  (members.lookup key).getD (.object [])

mutual

/-- A value put on another one. -/
def merged : Json → Json → Json
  | old, .object members => mergedMembers old members
  | _, .null => .null
  | _, .bool b => .bool b
  | _, .int i => .int i
  | _, .float x => .float x
  | _, .text s => .text s
  | _, .list items => .list items
termination_by structural _ j => j

/-- Members put on a value. -/
def mergedMembers : Json → List (String × Json) → Json
  | old, [] => old
  | old, (key, value) :: rest =>
    let members := membersOf old
    let key := Text.small key
    mergedMembers (.object (Assoc.put key (merged (under key members) value) members)) rest
termination_by structural _ ms => ms

end

/-- The longest list that a tree can have. -/
def longestList : Nat := twoTo 32

/-- The position that an index stands for in a list of some length. There is none before the start
of the list, and none beyond the end of the longest list. -/
def position? (length : Nat) (index : Int) : Option Nat :=
  if 0 ≤ index then if index.toNat < longestList then some index.toNat else none
  else if index.natAbs ≤ length then some (length - index.natAbs)
  else none

/-- The items with one at a position. A list that is too short is filled up with nulls. -/
def putItem (items : List Json) (position : Nat) (item : Json) : List Json :=
  (items ++ List.replicate (position + 1 - items.length) Json.null).set position item

/-- Puts a value at a path. Values on the way that cannot have such a part are replaced. An index
that stands for no position has no place. -/
def put? (value : Json) : List Step → Json → Option Json
  | [], old => some (merged old value)
  | [.item index], old =>
    (position? (itemsOf old).length index).map fun position =>
      .list (putItem (itemsOf old) position value)
  | .member key :: path, old => do
    let members := membersOf old
    let key := Text.small key
    let inner ← put? value path (under key members)
    return .object (Assoc.put key inner members)
  | .item index :: path, old => do
    let items := itemsOf old
    let position ← position? items.length index
    let inner ← put? value path (items.getD position Json.null)
    return .list (putItem items position inner)

/-- Puts a value where the text of a path says. A text that is no path in small letters is a name
as a whole. -/
def putAt? (tree : Json) (place : String) (value : Json) : Option Json :=
  let place := Text.small place
  put? value ((path? place).getD [.member place]) tree

end Cohort.Settings
