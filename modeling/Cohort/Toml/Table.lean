import Cohort.Assoc
import Cohort.Json.Basic

/-!
# TOML tables

The table that a text stands for is filled step by step. Each table of it is written in
one place: under a header of its own, by names with dots in one other table, or inline
as a value.

## Main definitions

* `Toml.Table` — a table that is being filled
* `Toml.Table.begin?`, `Toml.Table.append?`, `Toml.Table.assign?` — the steps
-/

namespace Cohort.Toml

/-- A table that has been filled in part. -/
structure Table where
  members : List (String × Json) := []
  /-- The table that values are assigned in. -/
  current : List String := []
  /-- The tables that have headers. -/
  headed : List (List String) := []
  /-- The tables that were made by names with dots. -/
  dotted : List (List String) := []
  /-- The places of values. -/
  values : List (List String) := []

/-- Changes the members of the table at a path. Tables on the way are made where there are none,
and of a list of tables the last one is meant. -/
def change? (f : List (String × Json) → Option (List (String × Json))) :
    List String → List (String × Json) → Option (List (String × Json))
  | [], members => f members
  | key :: path, members =>
    match Assoc.get? key members with
    | none => (change? f path []).map fun inner => members ++ [(key, .object inner)]
    | some (.object old) =>
      (change? f path old).map fun inner => Assoc.put key (.object inner) members
    | some (.list items) =>
      match items.getLast? with
      | some (.object old) =>
        (change? f path old).map fun inner =>
          Assoc.put key (.list (items.dropLast ++ [.object inner])) members
      | _ => none
    | _ => none

/-- The members of the table at a path. Of a list of tables the last one is meant. -/
def tableAt? : List String → List (String × Json) → Option (List (String × Json))
  | [], members => some members
  | key :: path, members =>
    match Assoc.get? key members with
    | some (.object inner) => tableAt? path inner
    | some (.list items) =>
      match items.getLast? with
      | some (.object inner) => tableAt? path inner
      | _ => none
    | _ => none

/-- A list of tables is at the path. -/
def isSeries : List String → List (String × Json) → Bool
  | [], _ => false
  | [key], members =>
    match Assoc.get? key members with
    | some (.list _) => true
    | _ => false
  | key :: path, members =>
    match tableAt? [key] members with
    | some inner => isSeries path inner
    | none => false

/-- Adds a member that is not there yet. -/
def addMember? (key : String) (value : Json) (members : List (String × Json)) :
    Option (List (String × Json)) :=
  if Assoc.has key members then none else some (members ++ [(key, value)])

/-- Adds an empty table to the list of tables under a key. -/
def addTable? (key : String) (members : List (String × Json)) : Option (List (String × Json)) :=
  match Assoc.get? key members with
  | none => some (members ++ [(key, .list [.object []])])
  | some (.list items) => some (Assoc.put key (.list (items ++ [.object []])) members)
  | _ => none

/-- Begins the table under a key. One that is there already goes behind all other members. -/
def beginTable? (key : String) (members : List (String × Json)) : Option (List (String × Json)) :=
  match Assoc.get? key members with
  | none => some (members ++ [(key, .object [])])
  | some (.object inner) => some (Assoc.erase key members ++ [(key, .object inner)])
  | _ => none

namespace Table

/-- A value stands at the path or on the way to it. -/
def crossesValue (t : Table) (path : List String) : Bool :=
  t.values.any fun place => place.isPrefixOf path

/-- A header begins a table, which must not have been written elsewhere. -/
def begin? (t : Table) (path : List String) : Option Table :=
  match path.getLast? with
  | none => none
  | some key =>
    if t.headed.contains path || t.dotted.contains path || t.crossesValue path then none
    else
      (change? (beginTable? key) path.dropLast t.members).map fun members =>
        { t with members, current := path, headed := path :: t.headed }

/-- A header begins a new table of a list of tables. All that was known of the table before it is
forgotten. -/
def append? (t : Table) (path : List String) : Option Table :=
  match path.getLast? with
  | none => none
  | some key =>
    if t.crossesValue path then none
    else
      let other (place : List String) : Bool := !path.isPrefixOf place
      (change? (addTable? key) path.dropLast t.members).map fun members =>
        { members
          current := path
          headed := path :: t.headed.filter other
          dotted := t.dotted.filter other
          values := t.values.filter other }

/-- The beginnings of a path that are tables below the current one, the longest one last. -/
def tablesOn (t : Table) (path : List String) : List (List String) :=
  (List.range (path.length - 1)).map fun n => t.current ++ path.take (n + 1)

/-- The table at a path is there. -/
def isThere (t : Table) (path : List String) : Bool := (tableAt? path t.members).isSome

/-- A name with dots may lead through the table at a place: one that has no header, or the last one
of a list of tables. -/
def mayCross (t : Table) (place : List String) : Bool :=
  !t.headed.contains place || isSeries place t.members

/-- A name with dots leads through tables that it may cross, and ends in one that was made by such a
name. -/
def mayAssign (t : Table) (path : List String) : Bool :=
  let tables := t.tablesOn path
  !t.crossesValue (t.current ++ path) && tables.all t.mayCross &&
    tables.getLast?.all fun place => t.dotted.contains place || !t.isThere place

/-- A value is assigned to a name in the current table. -/
def assign? (t : Table) (path : List String) (value : Json) : Option Table :=
  match path.getLast? with
  | none => none
  | some key =>
    if t.mayAssign path then
      let made := (t.tablesOn path).filter fun place => !t.isThere place
      (change? (addMember? key value) (t.current ++ path.dropLast) t.members).map fun members =>
        { t with
          members
          dotted := made ++ t.dotted
          values := (t.current ++ path) :: t.values }
    else none

end Table

end Cohort.Toml
