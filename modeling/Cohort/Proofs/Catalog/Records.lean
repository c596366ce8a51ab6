import Cohort.Segment.Record
import Cohort.Proofs.Query.Stored

/-!
# Stored segments

A stored segment is read back as it was: with its name, its texts, the typed plan and the list of
its dependencies, whatever characters they hold. The numbers of the plan must be read back from
their texts. A record that is not clearly of one kind is refused: it has either the SQL of a query
and its plan, or dependencies and an operation, never both and never neither.

## Main definitions

* `Segment.numbers` — the numbers in the typed plan of a segment

## Main results

* `RuleId.ofListText?_listText` — a stored list of dependencies is read back
* `SegmentRecord.source_eq_ok_iff` — which records are read, and as what
* `Segment.stored_faithfully` — segments are read back, and only records of one kind are read
-/

namespace Cohort

/-! ## Dependencies and operations -/

theorem RuleId.fits (id : RuleId) : Json.Fits id.toNat := by
  have below : id.toNat < twoTo 64 := id.toNat_lt_count
  exact ⟨by omega, by exact_mod_cast below⟩

theorem RuleId.ofJson?_toJson (id : RuleId) : RuleId.ofJson? id.toJson = some id := by
  have below : isUnsigned 64 id.toNat = true := decide_eq_true id.toNat_lt_count
  have same : RuleId.ofNat id.toNat = id := by simp [RuleId.ofNat, RuleId.toNat]
  simp [RuleId.ofJson?, RuleId.toJson, Json.unsigned?, below, same]

/-- A stored list of dependencies is read back. -/
theorem RuleId.ofListText?_listText (ids : List RuleId) :
    RuleId.ofListText? (RuleId.listText ids) = some ids := by
  have legible : Json.Legible .whole 127 (.list (ids.map RuleId.toJson)) :=
    ⟨by decide, Json.legibleItems_map .whole (fun _ => rfl) fun id _ => id.fits⟩
  have read : ∀ id : RuleId, (Json.reread? id.toJson).bind RuleId.ofJson? = some id :=
    fun id => id.ofJson?_toJson
  rw [RuleId.ofListText?, RuleId.listText, Json.parse?, Json.parseOutline?_render legible,
    Json.listOf?_reread? ids read]
  exact mapM_eq_some_self_iff.mpr fun id _ => rfl

/-- The name of an operation is read back. -/
theorem SetOperation.parse_name (operation : SetOperation) :
    SetOperation.parse operation.name = .ok operation := by
  cases operation <;> decide +kernel

/-! ## Plans -/

namespace Segment

/-- The typed plan: the query of a segment, or what it keeps of the combined segments. -/
def plan? (s : Segment) : Option Query :=
  match s.source with
  | .base query => some query
  | .composite _ _ residual => residual

/-- The numbers in the typed plan. -/
def numbers (s : Segment) : List Float := (s.plan?.map Query.numbers).getD []

end Segment

namespace SegmentRecord

variable {r : SegmentRecord} {s : Segment} {source : SegmentSource} {query : Query}

theorem plan_eq_none_iff : r.plan = .ok none ↔ r.queryPlan = none := by
  unfold plan
  split
  · next h => simp [h]
  · next text h => split <;> simp [h]

theorem plan_eq_some_iff : r.plan = .ok (some query) ↔
    ∃ text, r.queryPlan = some text ∧ Query.ofPlanText? text = some query := by
  unfold plan
  split
  · next h => simp [h]
  · next text h =>
    split
    · next query' read => simp [h, read]
    · next unread => simp [h, unread]

/-- Which records are read, and as what: queries with their plan, and composites whose dependencies
and operation can be read. -/
theorem source_eq_ok_iff : r.source = .ok source ↔
    (r.compiledQuery.isSome ∧ r.dependsOn = none ∧
      ∃ query, r.plan = .ok (some query) ∧ source = .base query) ∨
    (r.compiledQuery = none ∧ ∃ text dependsOn name operation residual,
      r.dependsOn = some text ∧ RuleId.ofListText? text = some dependsOn ∧
      r.operation = some name ∧ SetOperation.parse name = .ok operation ∧
      r.plan = .ok residual ∧ source = .composite dependsOn operation residual) := by
  unfold SegmentRecord.source
  cases plan : r.plan with
  | error failure => simp [bind, Except.bind]
  | ok residual =>
    simp only [bind, Except.bind]
    cases compiled : r.compiledQuery with
    | some sql =>
      cases listed : r.dependsOn with
      | some text => simp
      | none => cases residual <;> simp [eq_comm]
    | none =>
      cases listed : r.dependsOn with
      | none => simp
      | some text =>
        cases read : RuleId.ofListText? text with
        | none => simp [read]
        | some dependsOn =>
          cases named : r.operation with
          | none => simp [read]
          | some name => cases parsed : SetOperation.parse name <;> simp [read, parsed, eq_comm]

theorem toSegment_eq_ok_iff : r.toSegment = .ok s ↔ r.source = .ok s.source ∧
    s = ⟨r.ruleId, r.name, r.table, s.source, r.rowCount, r.lastRefreshedAt, r.dataAsOf,
      r.createdAt⟩ := by
  unfold toSegment
  cases source : r.source with
  | error failure => simp [bind, Except.bind]
  | ok source =>
    simp only [bind, Except.bind, pure, Except.pure, Except.ok.injEq]
    constructor
    · rintro rfl
      exact ⟨rfl, rfl⟩
    · rintro ⟨rfl, same⟩
      exact same.symm

end SegmentRecord

/-- A segment is read back if the numbers of its plan are. -/
theorem Segment.toSegment_toRecord {s : Segment} (readBack : ∀ x ∈ s.numbers, Json.ReadBack x) :
    s.toRecord.toSegment = .ok s := by
  obtain ⟨ruleId, name, table, source, rowCount, lastRefreshedAt, dataAsOf, createdAt⟩ := s
  have planned : ∀ query : Query, (∀ x ∈ query.numbers, Json.ReadBack x) →
      Query.ofPlanText? query.planText = some query := fun query h => by
    rw [query.ofPlanText?_planText, Query.reread?_eq_some_iff.mpr h]
  refine SegmentRecord.toSegment_eq_ok_iff.mpr ⟨SegmentRecord.source_eq_ok_iff.mpr ?_, rfl⟩
  cases source with
  | base query =>
    exact .inl ⟨rfl, rfl, query, SegmentRecord.plan_eq_some_iff.mpr
      ⟨_, rfl, planned query readBack⟩, rfl⟩
  | composite dependsOn operation residual =>
    refine .inr ⟨rfl, _, dependsOn, _, operation, residual, rfl, RuleId.ofListText?_listText _,
      rfl, operation.parse_name, ?_, rfl⟩
    cases residual with
    | none => exact SegmentRecord.plan_eq_none_iff.mpr rfl
    | some query =>
      exact SegmentRecord.plan_eq_some_iff.mpr ⟨_, rfl, planned query readBack⟩

/-- Every segment whose numbers are finite is read back as it was stored, where finite numbers are
read back; and only a record of one kind is read, with a plan if it is a query and with an operation
if it is a composite. -/
theorem Segment.stored_faithfully :
    (∀ s : Segment, (∀ x ∈ s.numbers, Decimal.isFinite x = true) →
      (∀ x ∈ s.numbers, Decimal.isFinite x = true → Json.ReadBack x) →
      s.toRecord.toSegment = .ok s) ∧
    ∀ (r : SegmentRecord) (s : Segment), r.toSegment = .ok s →
      (r.compiledQuery.isSome ∧ r.dependsOn = none ∧
        ∃ text query, r.queryPlan = some text ∧ Query.ofPlanText? text = some query ∧
          s.source = .base query) ∨
      (r.compiledQuery = none ∧
        ∃ text dependsOn, r.dependsOn = some text ∧ RuleId.ofListText? text = some dependsOn ∧
          ∃ name operation residual, r.operation = some name ∧
            SetOperation.parse name = .ok operation ∧
            s.source = .composite dependsOn operation residual) := by
  refine ⟨fun s finite readBack =>
    s.toSegment_toRecord fun x hx => readBack x hx (finite x hx), fun r s read => ?_⟩
  obtain ⟨computed, listed, query, planned, source⟩ |
    ⟨computed, text, dependsOn, name, operation, residual, listed, parents, named, parsed, -,
      source⟩ :=
    SegmentRecord.source_eq_ok_iff.mp (SegmentRecord.toSegment_eq_ok_iff.mp read).1
  · obtain ⟨text, written, plan⟩ := SegmentRecord.plan_eq_some_iff.mp planned
    exact .inl ⟨computed, listed, text, query, written, plan, source⟩
  · exact .inr ⟨computed, text, dependsOn, listed, parents, name, operation, residual, named, parsed,
      source⟩

/-- A composite of two segments that keeps the users with some amounts, dates and types. -/
private def mixedSegment : Segment where
  ruleId := .ofNat 18446744073709551615
  name := "say \"tier\\city\" \n"
  table := "segment_1"
  source := .composite [.ofNat 3, .ofNat 1, .ofNat 3] .difference (some
    { sql := "SELECT '\t'"
      filters :=
        [⟨.amount, .between, .range (.number 5.5) (.number (-3.0))⟩,
          ⟨.transactionType, .isIn, .list [.text "\"", .text "é\u0001"]⟩]
      having := [⟨.transactionDate, .ge, .scalar (.date ⟨-44, 3, 15, by decide⟩)⟩] })
  rowCount := 7
  lastRefreshedAt := some ⟨10, 0⟩
  dataAsOf := none
  createdAt := ⟨5, 0⟩

/-- The row of a composite that was written by hand. -/
private def handWritten : SegmentRecord where
  ruleId := .ofNat 2
  name := "both"
  table := "segment_2"
  compiledQuery := none
  dependsOn := some " [1, 3]"
  operation := some "intersect "
  queryPlan := none
  rowCount := 0
  lastRefreshedAt := none
  dataAsOf := none
  createdAt := ⟨5, 0⟩

/-- A segment with escaped characters and numbers is read back, and a row written by hand tells its
operation. -/
theorem Segment.stored_faithfully_mixed :
    ((∀ x ∈ mixedSegment.numbers, Decimal.isFinite x = true) ∧
      (∀ x ∈ mixedSegment.numbers, Json.ReadBack x) ∧
      mixedSegment.toRecord.toSegment = .ok mixedSegment) ∧
    handWritten.toSegment = .ok ⟨.ofNat 2, "both", "segment_2",
      .composite [.ofNat 1, .ofNat 3] .intersection none, 0, none, none, ⟨5, 0⟩⟩ ∧
    ∃ operation, SetOperation.parse "intersect " = .ok operation := by
  have finite : ∀ x ∈ mixedSegment.numbers, Decimal.isFinite x = true := by decide +kernel
  have readBack : ∀ x ∈ mixedSegment.numbers, Json.ReadBack x := by decide +kernel
  have read : handWritten.toSegment = .ok ⟨.ofNat 2, "both", "segment_2",
      .composite [.ofNat 1, .ofNat 3] .intersection none, 0, none, none, ⟨5, 0⟩⟩ := by
    decide +kernel
  refine ⟨⟨finite, readBack, ?_⟩, read, ?_⟩
  · exact Segment.stored_faithfully.1 mixedSegment finite fun x hx _ => readBack x hx
  · obtain ⟨computed, -⟩ | ⟨-, _, _, _, _, name, operation, _, named, parsed, -⟩ :=
      Segment.stored_faithfully.2 handWritten _ read
    · cases computed
    · cases named
      exact ⟨operation, parsed⟩

end Cohort
