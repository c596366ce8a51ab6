import Cohort.Rule
import Cohort.Query

/-!
# Segments

A segment is the materialized form of a rule: the table that holds its users, how the
table is computed, and when this was done last.

## Main definitions

* `SegmentSource` — by a query, or by combining other segments
* `Segment` — a segment and the data about its last refresh
-/

namespace Cohort

/-- How the users of a segment are computed. -/
inductive SegmentSource where
  /-- By a query over the transactions. -/
  | base (query : Query)
  /-- By combining the segments of other rules and keeping those users that the residual query
  selects too. -/
  | composite (dependsOn : List RuleId) (operation : SetOperation) (residual : Option Query)
  deriving DecidableEq, Repr

namespace SegmentSource

/-- The segments that are combined. -/
def dependsOn? : SegmentSource → Option (List RuleId)
  | .base _ => none
  | .composite dependsOn _ _ => some dependsOn

/-- The segments that are combined, none for a query. -/
def parents (s : SegmentSource) : List RuleId := s.dependsOn?.getD []

/-- How the segments are combined. -/
def operation? : SegmentSource → Option SetOperation
  | .base _ => none
  | .composite _ operation _ => some operation

/-- The query of a segment that is not combined. -/
def query? : SegmentSource → Option Query
  | .base query => some query
  | .composite .. => none

end SegmentSource

/-- The segment of a rule. -/
structure Segment where
  ruleId : RuleId
  name : String
  table : String
  source : SegmentSource
  rowCount : Nat
  lastRefreshedAt : Option Instant
  /-- No transaction before this time is missing from the table. -/
  dataAsOf : Option Instant
  createdAt : Instant
  deriving DecidableEq, Repr

/-- The table has been written. -/
def Segment.isMaterialized (s : Segment) : Bool := s.lastRefreshedAt.isSome

end Cohort
