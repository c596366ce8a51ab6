import Cohort.Entry

/-!
# Lineage

The segment of a composite rule is computed from the segments of other rules. This
module follows these dependencies in both directions.

## Main definitions

* `collect` — everything that can be reached along a step function
* `Lineage` — the graph of what feeds a segment
* `Lineage.of` — computes it from the rows of a catalogue
* `dependents` — the rules that directly or transitively depend on a rule
-/

namespace Cohort

/-- What a node of a lineage graph is. -/
inductive NodeKind where
  | base
  | composite
  /-- A dependency that the catalogue does not have. -/
  | missing
  deriving DecidableEq, Repr

/-- The name of a kind. -/
def NodeKind.name : NodeKind → String
  | .base => "base"
  | .composite => "composite"
  | .missing => "missing"

/-- A segment in a lineage graph. -/
structure LineageNode where
  ruleId : RuleId
  name : Option String
  segmentName : Option String
  table : Option String
  kind : NodeKind
  operation : Option SetOperation
  rowCount : Nat
  lastRefreshedAt : Option Instant
  deriving DecidableEq, Repr

/-- The segment `parent` feeds the segment `child`. -/
structure LineageEdge where
  parent : RuleId
  child : RuleId
  deriving DecidableEq, Repr

/-- The graph of everything that feeds a segment. -/
structure Lineage where
  root : RuleId
  nodes : List LineageNode
  edges : List LineageEdge
  deriving DecidableEq, Repr

/-- Collects what can be reached from the pending identifiers. The number bounds how many of
them are looked at. -/
def collect (next : RuleId → List RuleId) : Nat → List RuleId → List RuleId → List RuleId
  | 0, _, found => found
  | _ + 1, [], found => found
  | steps + 1, id :: pending, found =>
    if id ∈ found then collect next steps pending found
    else collect next steps (next id ++ pending) (id :: found)

namespace Entry

/-- The entry with an identifier; the later one where there are several. -/
def lookup? (entries : List Entry) (id : RuleId) : Option Entry :=
  (entries.filter fun e => e.id = id).getLast?

/-- The dependencies of an identifier, none if the catalogue does not have it. -/
def parentsOf (entries : List Entry) (id : RuleId) : List RuleId :=
  ((lookup? entries id).map parents).getD []

/-- The rules that depend on an identifier directly. -/
def childrenOf (entries : List Entry) (id : RuleId) : List RuleId :=
  (entries.filter fun e => e.parents.contains id).map Entry.id

/-- The number of dependencies of all entries. -/
def edgeCount (entries : List Entry) : Nat := (entries.flatMap Entry.parents).length

end Entry

namespace LineageEdge

/-- Edges are ordered by parent, then by child. -/
def before (a b : LineageEdge) : Bool :=
  decide (a.parent < b.parent) || (a.parent == b.parent && decide (a.child < b.child))

/-- Puts an edge into an ascending list of distinct ones. -/
def insertAscending (e : LineageEdge) : List LineageEdge → List LineageEdge
  | [] => [e]
  | x :: rest =>
    if before e x then e :: x :: rest
    else if e = x then x :: rest
    else x :: insertAscending e rest

end LineageEdge

namespace Lineage

/-- The node of an identifier. -/
def node (entries : List Entry) (id : RuleId) : LineageNode :=
  match Entry.lookup? entries id with
  | none => ⟨id, none, none, none, .missing, none, 0, none⟩
  | some e =>
    { ruleId := id
      name := some e.rule.name
      segmentName := some e.segment.name
      table := some e.segment.table
      kind := if e.segment.source.dependsOn?.isSome then .composite else .base
      operation := e.segment.source.operation?
      rowCount := e.segment.rowCount
      lastRefreshedAt := e.segment.lastRefreshedAt }

/-- The identifiers from which a segment is computed, itself included, in ascending order. -/
def contributors (entries : List Entry) (root : RuleId) : List RuleId :=
  RuleId.ascending
    (collect (Entry.parentsOf entries) (Entry.edgeCount entries + 1) [root] [])

/-- The edges into some segments. -/
def edgesInto (entries : List Entry) (ids : List RuleId) : List LineageEdge :=
  (ids.flatMap fun id => (Entry.parentsOf entries id).map fun parent => ⟨parent, id⟩).foldl
    (fun sorted e => LineageEdge.insertAscending e sorted) []

/-- The graph of everything that feeds a segment of the catalogue. -/
def of (entries : List Entry) (root : RuleId) : Except Failure Lineage :=
  if entries.any fun e => e.id = root then
    let ids := contributors entries root
    .ok ⟨root, ids.map (node entries), edgesInto entries ids⟩
  else .error (.ruleNotFound root)

/-- The node of an identifier in a graph. -/
def find? (g : Lineage) (id : RuleId) : Option LineageNode := g.nodes.find? fun n => n.ruleId = id

/-- The parents of an identifier in a graph. -/
def parentsOf (g : Lineage) (id : RuleId) : List RuleId :=
  (g.edges.filter fun e => e.child = id).map LineageEdge.parent

end Lineage

/-- The rules that directly or transitively depend on a rule, in ascending order. -/
def dependents (entries : List Entry) (id : RuleId) : List RuleId :=
  (RuleId.ascending
    (collect (Entry.childrenOf entries) (Entry.edgeCount entries + 1) [id] [])).filter (· ≠ id)

end Cohort
