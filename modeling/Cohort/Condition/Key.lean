import Cohort.Condition
import Cohort.Sorting

/-!
# Condition keys

Two conditions that differ only in spelling ask for the same thing. The key of a
condition is its content in one canonical spelling, and rules are compared by their
sets of keys.

## Main definitions

* `Condition.Key`, `Condition.key` — the canonical content of a condition
* `KeySet` — a set of keys in ascending order
* `KeySet.ofConditions` — the keys of a list of conditions
-/

namespace Cohort

namespace Condition

mutual

/-- The canonical text of a value: whole numbers as integers, lists item by item, all else as
JSON. -/
def canonicalText : Json → String
  | .float x =>
    match Decimal.smallWhole? x with
    | some i => toString i
    | none => Decimal.writeJson x
  | .list items => "[" ++ ",".intercalate (canonicalItems items) ++ "]"
  | .null => Json.render .null
  | .bool b => Json.render (.bool b)
  | .int i => toString i
  | .text s => Json.render (.text s)
  | .object members => Json.render (.object members)
termination_by structural j => j

/-- The canonical texts of a list of values. -/
def canonicalItems : List Json → List String
  | [] => []
  | j :: rest => canonicalText j :: canonicalItems rest
termination_by structural js => js

end

/-- The texts in ascending order, each once. -/
def sortedTexts (texts : List String) : List String :=
  (sortBy (fun a b => !decide (b < a)) texts).eraseReps

/-- The canonical text of a value under an operator: the order and repetition of a list of
alternatives do not matter. -/
def canonicalValue (operator : Option Operator) : Json → String
  | .list items =>
    if operator.any Operator.takesList then
      "[" ++ ",".intercalate (sortedTexts (canonicalItems items)) ++ "]"
    else canonicalText (.list items)
  | j => canonicalText j

/-- The content of a condition in canonical spelling. -/
structure Key where
  field : Option String
  operator : Option String
  value : Option String
  upper : Option String
  deriving DecidableEq, Repr

/-- The canonical spelling of an operator: its symbol, or the text itself if it names none. -/
def canonicalOperator (raw : String) : String :=
  match Operator.parse? raw with
  | some operator => operator.symbol
  | none => Text.trim raw

/-- The key of a condition. -/
def key (c : Condition) : Key where
  field := c.field.map Field.normalForm
  operator := c.operator.map canonicalOperator
  value := c.value.map (canonicalValue c.parsedOperator?)
  upper := c.upper.map (canonicalValue none)

namespace Key

/-- The members of a key that are present, with their names. -/
def pairs (k : Key) : List (String × String) :=
  [("field", k.field), ("operator", k.operator), ("value", k.value), ("value2", k.upper)].filterMap
    fun m => m.2.map fun text => (m.1, text)

/-- Lists of pairs in dictionary order. -/
def comparePairs : List (String × String) → List (String × String) → Ordering
  | [], [] => .eq
  | [], _ :: _ => .lt
  | _ :: _, [] => .gt
  | (a, b) :: rest, (c, d) :: other =>
    (compare a c).then ((compare b d).then (comparePairs rest other))

/-- Keys are ordered by their pairs. -/
def order (a b : Key) : Ordering := comparePairs a.pairs b.pairs

end Key

end Condition

/-- A set of keys, ascending and without repetition. -/
structure KeySet where
  keys : List Condition.Key
  deriving DecidableEq, Repr

namespace KeySet

open Condition (Key)

/-- The set without keys. -/
def empty : KeySet := ⟨[]⟩

/-- Puts a key at its place in an ascending list. -/
def insertKey (k : Key) : List Key → List Key
  | [] => [k]
  | l :: rest =>
    match Key.order k l with
    | .lt => k :: l :: rest
    | .eq => l :: rest
    | .gt => l :: insertKey k rest

/-- The set with one more key. -/
def insert (s : KeySet) (k : Key) : KeySet := ⟨insertKey k s.keys⟩

/-- The set of the keys of a list. -/
def ofKeys (keys : List Key) : KeySet := keys.foldl insert empty

/-- The set of the keys of some conditions. -/
def ofConditions (conditions : List Condition) : KeySet := ofKeys (conditions.map Condition.key)

/-- The number of keys. -/
def size (s : KeySet) : Nat := s.keys.length

/-- The set has no keys. -/
def isEmpty (s : KeySet) : Bool := s.keys.isEmpty

/-- The set has this key. -/
def contains (s : KeySet) (k : Key) : Bool := s.keys.contains k

/-- Every key of the first set is in the second. -/
def subset (s t : KeySet) : Bool := s.keys.all t.contains

/-- The keys of the first set that are not in the second. -/
def diff (s t : KeySet) : KeySet := ⟨s.keys.filter fun k => !t.contains k⟩

/-- The keys of either set. -/
def union (s t : KeySet) : KeySet := ofKeys (s.keys ++ t.keys)

end KeySet

end Cohort
