import Cohort.Toml.Value

/-!
# TOML documents

A document is a sequence of lines. A line is the header of a table, or of a new table of
a list of tables, or it assigns a value to a name in the table of the last header. In
the end dates and times become texts.

## Main definitions

* `Toml.parse?` — the table that a document stands for
-/

namespace Cohort.Toml

/-- Reads a header up to its closing brackets. -/
def readHeader? (closing : List Char) (cs : List Char) : Option (List String × List Char) := do
  let (path, rest) ← readPath? cs
  if closing.isPrefixOf rest then return (path, rest.drop closing.length) else none

/-- Reads one line that is not blank. -/
def readLine? (t : Table) (cs : List Char) : Option (Table × List Char) :=
  match cs with
  | '[' :: '[' :: rest => do
    let (path, rest) ← readHeader? [']', ']'] rest
    return (← t.append? path, rest)
  | '[' :: rest => do
    let (path, rest) ← readHeader? [']'] rest
    return (← t.begin? path, rest)
  | _ => do
    let (path, rest) ← readPath? cs
    match rest with
    | '=' :: rest =>
      let (value, rest) ← readValue? deepest (2 * rest.length + 2) (skipBlanks rest)
      return (← t.assign? path value, rest)
    | _ => none

/-- Reads the lines of a document. The number bounds how many. -/
def readLines? : Nat → Table → List Char → Option Table
  | 0, _, _ => none
  | n + 1, t, cs =>
    match skipGap false cs with
    | [] => some t
    | cs =>
      match readLine? t cs with
      | none => none
      | some (t, rest) => if atLineEnd rest then readLines? n t rest else none

/-- Drops a byte order mark at the start of a text. -/
def dropMark : List Char → List Char
  | '\ufeff' :: rest => rest
  | cs => cs

/-- The table that a document stands for. -/
def parse? (s : String) : Option Json := do
  let cs := dropMark s.toList
  let t ← readLines? (cs.length + 1) {} cs
  settled? (.object t.members)

end Cohort.Toml
