/-!
# JSON values

A condition carries an arbitrary JSON value, and rules, transactions and settings
are read from JSON. Integers and other numbers are kept apart, because an
identifier or a count must be an integer. An object keeps its members as they
were read; `Json.tidy` gives the form in which every key occurs once, in the order
of its characters.

## Main definitions

* `Json` — JSON values
* `Json.tidy` — each object with distinct keys in ascending order, later members winning
* `Json.isTidy` — nothing left to tidy
-/

namespace Cohort

/-- A JSON value. Integers are those of 64 bits, signed or unsigned; all other numbers are
doubles. -/
inductive Json where
  | null
  | bool (b : Bool)
  | int (i : Int)
  | float (x : Float)
  | text (s : String)
  | list (items : List Json)
  | object (members : List (String × Json))
  deriving Inhabited, Repr

namespace Json

mutual

/-- Equality of values, with doubles compared as values and not as quantities. -/
def same : Json → Json → Bool
  | .null, .null => true
  | .bool a, .bool b => a == b
  | .int a, .int b => decide (a = b)
  | .float a, .float b => decide (a = b)
  | .text a, .text b => decide (a = b)
  | .list as, .list bs => sameItems as bs
  | .object as, .object bs => sameMembers as bs
  | _, _ => false
termination_by structural j => j

/-- Equality of lists of values. -/
def sameItems : List Json → List Json → Bool
  | [], [] => true
  | a :: as, b :: bs => same a b && sameItems as bs
  | _, _ => false
termination_by structural js => js

/-- Equality of lists of members. -/
def sameMembers : List (String × Json) → List (String × Json) → Bool
  | [], [] => true
  | (k, a) :: as, (l, b) :: bs => decide (k = l) && (same a b && sameMembers as bs)
  | _, _ => false
termination_by structural ms => ms

end

mutual

theorem same_iff : ∀ a b : Json, same a b = true ↔ a = b
  | .null, b | .bool _, b | .int _, b | .float _, b | .text _, b => by
    cases b <;> simp [same]
  | .list as, b => by
    cases b <;> simp [same]
    exact sameItems_iff as _
  | .object as, b => by
    cases b <;> simp [same]
    exact sameMembers_iff as _

theorem sameItems_iff : ∀ as bs : List Json, sameItems as bs = true ↔ as = bs
  | [], bs => by cases bs <;> simp [sameItems]
  | a :: as, bs => by
    cases bs with
    | nil => simp [sameItems]
    | cons b bs => simp [sameItems, same_iff a b, sameItems_iff as bs]

theorem sameMembers_iff : ∀ as bs : List (String × Json), sameMembers as bs = true ↔ as = bs
  | [], bs => by cases bs <;> simp [sameMembers]
  | (k, a) :: as, bs => by
    cases bs with
    | nil => simp [sameMembers]
    | cons b bs =>
      simp [sameMembers, same_iff a b.2, sameMembers_iff as bs, Prod.ext_iff, and_assoc]

end

instance : DecidableEq Json := fun a b => decidable_of_iff _ (same_iff a b)

/-- Puts a member into members with ascending keys; a member with the same key is replaced. -/
def putMember (key : String) (value : Json) : List (String × Json) → List (String × Json)
  | [] => [(key, value)]
  | (k, v) :: rest =>
    if key < k then (key, value) :: (k, v) :: rest
    else if key = k then (key, value) :: rest
    else (k, v) :: putMember key value rest

/-- The members with distinct keys in ascending order, later ones winning. -/
def ofMembers (members : List (String × Json)) : List (String × Json) :=
  members.foldl (fun sorted m => putMember m.1 m.2 sorted) []

mutual

/-- The value with distinct ascending keys in every object; of members with one key the last
one stays. -/
def tidy : Json → Json
  | .null => .null
  | .bool b => .bool b
  | .int i => .int i
  | .float x => .float x
  | .text s => .text s
  | .list items => .list (tidyItems items)
  | .object members => .object (ofMembers (tidyMembers members))
termination_by structural j => j

/-- Tidies each item. -/
def tidyItems : List Json → List Json
  | [] => []
  | j :: rest => tidy j :: tidyItems rest
termination_by structural js => js

/-- Tidies the value of each member. -/
def tidyMembers : List (String × Json) → List (String × Json)
  | [] => []
  | (k, j) :: rest => (k, tidy j) :: tidyMembers rest
termination_by structural ms => ms

end

/-- The value of a member: the last one with that key. -/
def member? (key : String) : Json → Option Json
  | .object members => (members.filter (·.1 = key)).getLast?.map (·.2)
  | _ => none

/-- The text that a value is, if it is one. -/
def text? : Json → Option String
  | .text s => some s
  | _ => none

/-- The items of a list. -/
def list? : Json → Option (List Json)
  | .list items => some items
  | _ => none

end Json

end Cohort
