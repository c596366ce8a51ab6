import Cohort.Segment
import Cohort.Query.Json
import Cohort.Rule.Json

/-!
# Stored segments

A segment is stored as a flat record: the SQL of its query or the list of its
dependencies, and the typed plan as JSON text. Exactly one of the two tells how
the segment is computed.

## Main definitions

* `SegmentRecord` — the stored form
* `Segment.toRecord` — writes a segment
* `SegmentRecord.toSegment` — reads it back
-/

namespace Cohort

/-- The stored form of a segment. -/
structure SegmentRecord where
  ruleId : RuleId
  name : String
  table : String
  compiledQuery : Option String
  dependsOn : Option String
  operation : Option String
  queryPlan : Option String
  rowCount : Nat
  lastRefreshedAt : Option Instant
  dataAsOf : Option Instant
  createdAt : Instant
  deriving DecidableEq, Repr

/-- The identifiers as JSON text. -/
def RuleId.listText (ids : List RuleId) : String := (Json.list (ids.map RuleId.toJson)).render

/-- The identifiers that a JSON text stands for. -/
def RuleId.ofListText? (s : String) : Option (List RuleId) :=
  (Json.parse? s).bind (Json.listOf? RuleId.ofJson?)

namespace Segment

/-- Writes a segment. -/
def toRecord (s : Segment) : SegmentRecord where
  ruleId := s.ruleId
  name := s.name
  table := s.table
  compiledQuery := s.source.query?.map Query.sql
  dependsOn := s.source.dependsOn?.map RuleId.listText
  operation := s.source.operation?.map SetOperation.name
  queryPlan :=
    match s.source with
    | .base query => some query.planText
    | .composite _ _ residual => residual.map Query.planText
  rowCount := s.rowCount
  lastRefreshedAt := s.lastRefreshedAt
  dataAsOf := s.dataAsOf
  createdAt := s.createdAt

end Segment

namespace SegmentRecord

/-- The typed plan of a record, which must be readable if it is there. -/
def plan (r : SegmentRecord) : Except Failure (Option Query) :=
  match r.queryPlan with
  | none => .ok none
  | some text =>
    match Query.ofPlanText? text with
    | some query => .ok (some query)
    | none => .error .unreadable

/-- How the segment of a record is computed. -/
def source (r : SegmentRecord) : Except Failure SegmentSource := do
  let plan ← r.plan
  match r.compiledQuery, r.dependsOn with
  | some _, none =>
    match plan with
    | some query => .ok (.base query)
    | none => .error (.catalog (.missingPlan r.ruleId))
  | none, some text =>
    match RuleId.ofListText? text with
    | none => .error .unreadable
    | some dependsOn =>
      match r.operation with
      | none => .error (.catalog (.missingOperation r.ruleId))
      | some name =>
        match SetOperation.parse name with
        | .ok operation => .ok (.composite dependsOn operation plan)
        | .error detail => .error (.catalog (.unreadableOperation detail))
  | _, _ => .error (.catalog (.ambiguousSource r.ruleId))

/-- Reads a segment back. -/
def toSegment (r : SegmentRecord) : Except Failure Segment := do
  let source ← r.source
  return ⟨r.ruleId, r.name, r.table, source, r.rowCount, r.lastRefreshedAt, r.dataAsOf,
    r.createdAt⟩

/-- The names of the members of a record. -/
def memberNames : List String :=
  ["rule_id", "segment_name", "table_name", "compiled_query", "depends_on", "operation",
    "query_plan", "row_count", "last_refreshed_at", "data_as_of", "created_at"]

/-- Reads a record. -/
def ofJson? (j : Json) : Option SegmentRecord := do
  let shape ← j.shape? memberNames
  let ruleId ← shape.required "rule_id" RuleId.ofJson?
  let name ← shape.required "segment_name" Json.text?
  let table ← shape.required "table_name" Json.text?
  let compiledQuery ← shape.optional "compiled_query" Json.text?
  let dependsOn ← shape.optional "depends_on" Json.text?
  let operation ← shape.optional "operation" Json.text?
  let queryPlan ← shape.optional "query_plan" Json.text?
  let rowCount ← shape.required "row_count" (Json.unsigned? 64)
  let lastRefreshedAt ← shape.optional "last_refreshed_at" Instant.ofJson?
  let dataAsOf ← shape.optional "data_as_of" Instant.ofJson?
  let createdAt ← shape.required "created_at" Instant.ofJson?
  return ⟨ruleId, name, table, compiledQuery, dependsOn, operation, queryPlan, rowCount,
    lastRefreshedAt, dataAsOf, createdAt⟩

/-- The JSON form of a record, with instants written by `instant`. -/
def toJson (instant : Instant → Json) (r : SegmentRecord) : Json :=
  .object [("rule_id", r.ruleId.toJson), ("segment_name", .text r.name),
    ("table_name", .text r.table), ("compiled_query", Json.ofOption .text r.compiledQuery),
    ("depends_on", Json.ofOption .text r.dependsOn),
    ("operation", Json.ofOption .text r.operation),
    ("query_plan", Json.ofOption .text r.queryPlan), ("row_count", .int r.rowCount),
    ("last_refreshed_at", Json.ofOption instant r.lastRefreshedAt),
    ("data_as_of", Json.ofOption instant r.dataAsOf), ("created_at", instant r.createdAt)]

end SegmentRecord

end Cohort
