import Cohort.Toml.MomentTable
import Cohort.Toml.Number
import Cohort.Toml.Quoted
import Cohort.Toml.Table

/-!
# TOML values

A reader of names and of the values that stand behind the equals signs: texts, numbers,
truth values, dates and times, lists and inline tables. Values are given as JSON
values, dates and times among them as tables.

## Main definitions

* `Toml.readKey?`, `Toml.readPath?` — names
* `Toml.readValue?` — one value
-/

namespace Cohort.Toml

/-- A character that may stand in a name without quotes. -/
def isBare (c : Char) : Bool := c.isAlphanum || c == '_' || c == '-'

/-- Reads a name: bare, or in quotes on one line. -/
def readKey? (cs : List Char) : Option (String × List Char) :=
  match cs with
  | '"' :: rest => (readBasic? rest).map fun (s, after) => (String.ofList s, after)
  | '\'' :: rest => (readLiteral? rest).map fun (s, after) => (String.ofList s, after)
  | _ =>
    let name := cs.takeWhile isBare
    if name.isEmpty then none else some (String.ofList name, cs.drop name.length)

/-- How many names a path may have, and how deep lists and inline tables may be nested. -/
def deepest : Nat := 79

/-- Reads names with dots between them, at most so many. -/
def readNames? : Nat → List Char → Option (List String × List Char)
  | 0, _ => none
  | n + 1, cs => do
    let (key, rest) ← readKey? (skipBlanks cs)
    match skipBlanks rest with
    | '.' :: rest =>
      let (path, rest) ← readNames? n rest
      return (key :: path, rest)
    | rest => return ([key], rest)

/-- Reads a path of names. -/
def readPath? (cs : List Char) : Option (List String × List Char) := readNames? deepest cs

/-- Reads a value without quotes and brackets. -/
def readWord? (cs : List Char) : Option (Json × List Char) :=
  match cs with
  | 't' :: 'r' :: 'u' :: 'e' :: rest => some (.bool true, rest)
  | 'f' :: 'a' :: 'l' :: 's' :: 'e' :: rest => some (.bool false, rest)
  | _ =>
    match readMoment? cs with
    | some (s, rest) => some (momentTable s, rest)
    | none => readNumber? cs

mutual

/-- Reads a value. `depth` bounds the nesting, `fuel` the number of steps. -/
def readValue? (depth : Nat) : Nat → List Char → Option (Json × List Char)
  | 0, _ => none
  | fuel + 1, cs =>
    match cs with
    | '"' :: _ => (readQuoted? cs).map fun (s, rest) => (.text s, rest)
    | '\'' :: _ => (readQuoted? cs).map fun (s, rest) => (.text s, rest)
    | '[' :: rest =>
      if depth = 0 then none
      else (readItems? (depth - 1) fuel rest).map fun (items, after) => (.list items, after)
    | '\x7b' :: rest =>
      if depth = 0 then none
      else
        match skipBlanks rest with
        | '\x7d' :: after => some (.object [], after)
        | _ =>
          (readMembers? (depth - 1) fuel {} rest).map fun (table, after) =>
            (.object table.members, after)
    | _ => readWord? cs
termination_by structural fuel => fuel

/-- Reads the items of a list and its closing bracket. -/
def readItems? (depth : Nat) : Nat → List Char → Option (List Json × List Char)
  | 0, _ => none
  | fuel + 1, cs =>
    match skipGap false cs with
    | ']' :: after => some ([], after)
    | cs =>
      match readValue? depth fuel cs with
      | none => none
      | some (item, rest) =>
        match skipGap false rest with
        | ']' :: after => some ([item], after)
        | ',' :: after =>
          (readItems? depth fuel after).map fun (items, after) => (item :: items, after)
        | _ => none
termination_by structural fuel => fuel

/-- Reads the members of an inline table and its closing brace. -/
def readMembers? (depth : Nat) : Nat → Table → List Char → Option (Table × List Char)
  | 0, _, _ => none
  | fuel + 1, table, cs =>
    match readPath? cs with
    | some (path, '=' :: rest) =>
      match readValue? depth fuel (skipBlanks rest) with
      | none => none
      | some (value, rest) =>
        match table.assign? path value with
        | none => none
        | some table =>
          match skipBlanks rest with
          | '\x7d' :: after => some (table, after)
          | ',' :: after => readMembers? depth fuel table after
          | _ => none
    | _ => none
termination_by structural fuel => fuel

end

end Cohort.Toml
