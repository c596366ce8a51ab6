import Cohort.SetOperation
import Cohort.Failure

/-!
# Datasets

A dataset is a list of rows about users. Set operations compare rows by their user
alone: each user is represented by the first row that has it.

## Main definitions

* `UserRow` — what is known about a user
* `Dataset.union`, `Dataset.intersect`, `Dataset.except` — set operations
* `Dataset.combine` — a set operation over any number of datasets
-/

namespace Cohort

/-- A user together with the totals over the transactions that selected the user. -/
structure UserRow where
  user : Option String
  count : Nat
  spent : Float
  kinds : String
  deriving DecidableEq, Repr

/-- Rows about users. -/
abbrev Dataset := List UserRow

namespace Dataset

/-- The users of a dataset. -/
def users (d : Dataset) : List (Option String) := d.map UserRow.user

/-- The first row of each user, for users that pass a test and are not seen yet. -/
def firstRows (keep : Option String → Bool) : List (Option String) → Dataset → Dataset
  | _, [] => []
  | seen, row :: rest =>
    if keep row.user && !seen.contains row.user then
      row :: firstRows keep (row.user :: seen) rest
    else firstRows keep seen rest

/-- The rows that have a user. -/
def dropNull (d : Dataset) : Dataset := d.filter fun row => row.user.isSome

/-- The users of any of the datasets. -/
def union (operands : List Dataset) : Dataset := firstRows (fun _ => true) [] operands.flatten

/-- The users of the left dataset that the right one has too. -/
def intersect (left right : Dataset) : Dataset := firstRows right.users.contains [] left

/-- The users of the left dataset that the right one has not. -/
def except (left right : Dataset) : Dataset :=
  firstRows (fun user => !right.users.contains user) [] left

/-- A set operation over any number of datasets. A single dataset stays as it is, and there is
no result for none at all. -/
def combine (operation : SetOperation) : List Dataset → Except EngineFailure Dataset
  | [] => .error .nothingToCombine
  | [only] => .ok only
  | first :: rest =>
    .ok <|
      match operation with
      | .union => union (first :: rest)
      | .intersection => rest.foldl intersect first
      | .difference => rest.foldl except first

end Dataset

end Cohort
