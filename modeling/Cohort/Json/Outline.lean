/-!
# Outlines

A JSON text that is read as a record is read in outline: the members of the record
count, and other members are passed over. What is passed over must be well-formed, but
it need not stand for a value.

## Main definitions

* `Json.Outline` — what is read of a text
* `Json.Outline.item`, `Json.Outline.member?` — what is read of its parts
-/

namespace Cohort.Json

/-- What is read of a text. -/
inductive Outline where
  /-- Everything. -/
  | whole
  /-- Of each item of a list the same. -/
  | items (item : Outline)
  /-- The given members of an object. A list has them in this order. -/
  | record (members : List (String × Outline))
  /-- Everything, with the contents of the given variants in outline. -/
  | choice (variants : List (String × Outline))

namespace Outline

/-- A record whose members are read as a whole. -/
def plain (names : List String) : Outline := .record (names.map fun name => (name, .whole))

/-- What is read of the item at a position of a list. -/
def item (o : Outline) (position : Nat) : Outline :=
  match o with
  | .items item => item
  | .record members => (members[position]?.map Prod.snd).getD .whole
  | _ => .whole

/-- What is read of the member under a key. A member without an answer is passed over. -/
def member? (o : Outline) (key : String) : Option Outline :=
  match o with
  | .record members => members.lookup key
  | .choice variants => some ((variants.lookup key).getD .whole)
  | _ => some .whole

end Outline

end Cohort.Json
