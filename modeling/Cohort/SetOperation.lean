import Cohort.Text.Blank
import Cohort.Text.Letter

/-!
# Set operations

A composite segment combines the users of other segments with one of three set
operations.
-/

namespace Cohort

/-- How the segments of a composite are combined. -/
inductive SetOperation where
  | union
  | intersection
  | difference
  deriving DecidableEq, Repr, Inhabited

namespace SetOperation

/-- All operations. -/
def all : List SetOperation := [.union, .intersection, .difference]

/-- The name of an operation. -/
def name : SetOperation → String
  | .union => "UNION"
  | .intersection => "INTERSECTION"
  | .difference => "DIFFERENCE"

/-- The operation with exactly this name. -/
def ofName? (s : String) : Option SetOperation := all.find? fun operation => operation.name == s

/-- Reads an operation without regard to case and surrounding blanks; the words of SQL are
understood too. -/
def parse (s : String) : Except String SetOperation :=
  let wanted := Text.upper (Text.trim s)
  if wanted == "INTERSECT" then .ok .intersection
  else if wanted == "EXCEPT" then .ok .difference
  else
    match ofName? wanted with
    | some operation => .ok operation
    | none => .error s!"unsupported operation '{wanted}'"

end SetOperation

end Cohort
