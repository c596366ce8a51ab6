import Cohort.Entry
import Cohort.Lineage
import Cohort.Segment.Record

/-!
# Entries as JSON

The JSON forms of rules, segments, entries and lineage graphs. Instants are written by
a function that the caller chooses.
-/

namespace Cohort

/-- An instant as its text. -/
def Instant.toJson (t : Instant) : Json := .text t.text

/-- The JSON form of a rule. -/
def Rule.toJson (instant : Instant → Json) (r : Rule) : Json :=
  .object [("id", r.id.toJson), ("name", .text r.name),
    ("description", Json.ofOption .text r.description),
    ("conditions", Condition.listToJson r.conditions),
    ("declared_conditions", Condition.listToJson r.declared),
    ("dependencies", Json.ofOption (fun ids => .list (ids.map RuleId.toJson)) r.dependencies),
    ("operation", Json.ofOption SetOperation.toJson r.operation), ("active", .bool r.active),
    ("schedule", r.schedule.toJson), ("next_run_at", Json.ofOption instant r.nextRunAt),
    ("last_run_at", Json.ofOption instant r.lastRunAt), ("created_at", instant r.createdAt),
    ("updated_at", instant r.updatedAt)]

namespace SegmentSource

/-- The JSON form of a source. -/
def toJson : SegmentSource → Json
  | .base query => .object [("kind", .text "base"), ("query", query.toJson)]
  | .composite dependsOn operation residual =>
    .object [("kind", .text "composite"), ("depends_on", .list (dependsOn.map RuleId.toJson)),
      ("operation", operation.toJson), ("residual", Json.ofOption Query.toJson residual)]

/-- The kind of a source and the rest of its members. -/
def kindOf? : Json → Option (String × Json)
  | .object members =>
    match members.filter fun m => m.1 = "kind" with
    | [(_, .text kind)] => some (kind, .object (members.filter fun m => m.1 ≠ "kind"))
    | _ => none
  | .list (.text kind :: rest) => some (kind, .list rest)
  | _ => none

/-- Reads a source. In it, names may have empty objects as their contents. -/
def ofJson? (j : Json) : Option SegmentSource := do
  let name := Json.looseUnitVariant?
  let (kind, rest) ← kindOf? j
  if kind = "base" then
    let shape ← rest.shape? ["query"]
    let query ← shape.required "query" (Query.readWith name)
    return .base query
  else if kind = "composite" then
    let shape ← rest.shape? ["depends_on", "operation", "residual"]
    let dependsOn ← shape.required "depends_on" (Json.listOf? RuleId.ofJson?)
    let operation ← shape.required "operation" fun j => (name j).bind SetOperation.ofName?
    let residual ← shape.optional "residual" (Query.readWith name)
    return .composite dependsOn operation residual
  else none

end SegmentSource

/-- The JSON form of a segment. -/
def Segment.toJson (instant : Instant → Json) (s : Segment) : Json :=
  .object [("rule_id", s.ruleId.toJson), ("segment_name", .text s.name),
    ("table_name", .text s.table), ("source", s.source.toJson), ("row_count", .int s.rowCount),
    ("last_refreshed_at", Json.ofOption instant s.lastRefreshedAt),
    ("data_as_of", Json.ofOption instant s.dataAsOf), ("created_at", instant s.createdAt)]

/-- The JSON form of an entry. -/
def Entry.toJson (instant : Instant → Json) (e : Entry) : Json :=
  .object [("rule", e.rule.toJson instant), ("segment", e.segment.toJson instant),
    ("version", .int e.version)]

/-- The JSON form of a node. -/
def LineageNode.toJson (instant : Instant → Json) (n : LineageNode) : Json :=
  .object [("rule_id", n.ruleId.toJson), ("name", Json.ofOption .text n.name),
    ("segment_name", Json.ofOption .text n.segmentName),
    ("table_name", Json.ofOption .text n.table), ("kind", .text n.kind.name),
    ("operation", Json.ofOption SetOperation.toJson n.operation), ("row_count", .int n.rowCount),
    ("last_refreshed_at", Json.ofOption instant n.lastRefreshedAt)]

/-- The JSON form of an edge. -/
def LineageEdge.toJson (e : LineageEdge) : Json :=
  .object [("parent", e.parent.toJson), ("child", e.child.toJson)]

/-- The JSON form of a lineage graph. -/
def Lineage.toJson (instant : Instant → Json) (g : Lineage) : Json :=
  .object [("root", g.root.toJson), ("nodes", .list (g.nodes.map (LineageNode.toJson instant))),
    ("edges", .list (g.edges.map LineageEdge.toJson))]

end Cohort
