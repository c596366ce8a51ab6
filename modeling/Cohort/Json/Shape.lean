import Cohort.Json.Basic
import Cohort.Power

/-!
# Reading structures from JSON

A structure is written as an object, or as the list of its members in their declared
order. Members with a default may be absent; in a list only the last ones can be.
Unknown members of an object are ignored, a member that occurs twice is an error.

A choice is written as the name of the variant, or as an object whose only member is
named for the variant and holds its contents.

## Main definitions

* `Json.shape?` — the members of a structure
* `Json.Shape.required`, `Json.Shape.optional`, `Json.Shape.defaulted` — one member
* `Json.variant?` — the variant of a choice
* `Json.unitVariant?`, `Json.looseUnitVariant?` — a variant without contents
-/

namespace Cohort.Json

/-- The members of a structure, and whether they were written as a list. -/
structure Shape where
  positional : Bool
  members : List (String × Json)

/-- The members of a structure with the given member names. -/
def shape? (names : List String) : Json → Option Shape
  | .object members =>
    if names.all fun name => (members.filter (·.1 = name)).length ≤ 1 then
      some ⟨false, members⟩
    else none
  | .list items => if items.length ≤ names.length then some ⟨true, names.zip items⟩ else none
  | _ => none

namespace Shape

variable {α : Type}

/-- A member that must be there. -/
def required (s : Shape) (name : String) (read : Json → Option α) : Option α :=
  (s.members.lookup name).bind read

/-- A member that takes a default where it is absent. -/
def defaulted (s : Shape) (name : String) (default : α) (read : Json → Option α) : Option α :=
  match s.members.lookup name with
  | none => some default
  | some j => read j

/-- Null stands for absence. -/
def nullable (read : Json → Option α) : Json → Option (Option α)
  | .null => some none
  | j => (read j).map some

/-- A member that may be null. In an object it may also be left out. -/
def optional (s : Shape) (name : String) (read : Json → Option α) : Option (Option α) :=
  match s.members.lookup name with
  | none => if s.positional then none else some none
  | some j => nullable read j

/-- A member that may be null or left out. -/
def optionalDefault (s : Shape) (name : String) (read : Json → Option α) : Option (Option α) :=
  s.defaulted name none (nullable read)

end Shape

/-- The name of a variant and its contents, if it has some. -/
def variant? : Json → Option (String × Option Json)
  | .text name => some (name, none)
  | .object [(name, contents)] => some (name, some contents)
  | _ => none

/-- The name of a variant without contents. -/
def unitVariant? (j : Json) : Option String :=
  match variant? j with
  | some (name, none) => some name
  | some (name, some .null) => some name
  | _ => none

/-- The name of a variant without contents, for which an empty object may stand too. -/
def looseUnitVariant? (j : Json) : Option String :=
  match variant? j with
  | some (name, some (.object [])) => some name
  | _ => unitVariant? j

/-- An integer of 64 bits with a sign. -/
def signed64? : Json → Option Int
  | .int i => if isSigned64 i then some i else none
  | _ => none

/-- An unsigned integer of so many bits. -/
def unsigned? (bits : Nat) : Json → Option Nat
  | .int i => if 0 ≤ i ∧ isUnsigned bits i.toNat then some i.toNat else none
  | _ => none

/-- A truth value. -/
def bool? : Json → Option Bool
  | .bool b => some b
  | _ => none

/-- A list whose items all can be read. -/
def listOf? {α : Type} (read : Json → Option α) : Json → Option (List α)
  | .list items => items.mapM read
  | _ => none

/-- A null in place of a value that is absent. -/
def ofOption {α : Type} (write : α → Json) : Option α → Json
  | none => .null
  | some a => write a

/-- The members of a structure that are present. -/
def ofPresent (members : List (String × Option Json)) : Json :=
  .object (members.filterMap fun m => m.2.map fun j => (m.1, j))

end Cohort.Json
