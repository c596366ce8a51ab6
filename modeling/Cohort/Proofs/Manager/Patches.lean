import Cohort.Proofs.Manager.StoredPlans

/-!
# What a patch touches

A patch has five members, and a change of a rule writes a row of twenty. What a user does not ask
for stays: a member of the row has its old value unless the patch names it, and the plan has it
unless the conditions of the patch are others than those that the rule stands for. Three members
of the patch can move the time of the next run, so that this time needs a reason of its own.

## Main definitions

* `Entry.SamePlan` — two rows have the same plan
* `Entry.ChangedBy` — a row is what a patch makes of another, and no more

## Main results

* `Patched.changedBy` — each way to apply a patch goes no further
* `update_touches_named` — neither does a change that succeeds, and it touches no other row
-/

namespace Cohort

open Cohort.Action

variable {setup : Setup} {c c' : Catalog} {old new : Entry} {now : Instant} {patch : RulePatch}

/-- The conditions of a patch are others, as a set, than those that a rule stands for. -/
def RulePatch.ChangesConditions (patch : RulePatch) (r : Rule) : Prop :=
  ∃ conditions, patch.conditions = some conditions ∧
    KeySet.ofConditions conditions ≠ KeySet.ofConditions r.declared

theorem RulePatch.changedConditions_eq_some {r : Rule} {conditions : List Condition}
    (h : patch.changedConditions r = some conditions) : patch.ChangesConditions r := by
  obtain ⟨given, changed⟩ := Option.filter_eq_some_iff.mp h
  exact ⟨conditions, given, of_decide_eq_true changed⟩

/-- Two rows have the same plan. -/
structure Entry.SamePlan (old new : Entry) : Prop where
  dependencies : new.rule.dependencies = old.rule.dependencies
  operation : new.rule.operation = old.rule.operation
  conditions : new.rule.conditions = old.rule.conditions
  declared : new.rule.declared = old.rule.declared
  source : new.segment.source = old.segment.source

/-- What a patch makes of a row, apart from its version: it keeps what a patch cannot name, takes
the members of the patch, and has another plan or another time for the next run only if there is a
reason in the patch. -/
structure Entry.ChangedBy (patch : RulePatch) (old new : Entry) : Prop where
  rule_id : new.rule.id = old.rule.id
  segment_id : new.segment.ruleId = old.segment.ruleId
  segment_name : new.segment.name = old.segment.name
  table : new.segment.table = old.segment.table
  rowCount : new.segment.rowCount = old.segment.rowCount
  lastRefreshedAt : new.segment.lastRefreshedAt = old.segment.lastRefreshedAt
  dataAsOf : new.segment.dataAsOf = old.segment.dataAsOf
  lastRunAt : new.rule.lastRunAt = old.rule.lastRunAt
  rule_createdAt : new.rule.createdAt = old.rule.createdAt
  segment_createdAt : new.segment.createdAt = old.segment.createdAt
  name : new.rule.name = (patch.name.map Text.trim).getD old.rule.name
  description : new.rule.description = (patch.description <|> old.rule.description)
  schedule : new.rule.schedule = patch.schedule.getD old.rule.schedule
  active : new.rule.active = patch.active.getD old.rule.active
  samePlan : ¬patch.ChangesConditions old.rule → old.SamePlan new
  nextRunAt : new.rule.nextRunAt = old.rule.nextRunAt ∨
    new.rule.schedule ≠ old.rule.schedule ∨
    (old.rule.active = false ∧ new.rule.active = true) ∨
    (patch.ChangesConditions old.rule ∧ new.rule.active = true)

/-- However a patch is applied, it touches nothing else. -/
theorem Patched.changedBy (h : Patched setup c old patch now new) : old.ChangedBy patch new := by
  cases h with
  | plain applied same =>
    obtain rfl := applyPlain_members applied
    refine ⟨rfl, rfl, rfl, rfl, rfl, rfl, rfl, rfl, rfl, rfl, rfl, rfl, rfl, rfl,
      fun _ => ⟨rfl, rfl, rfl, rfl, rfl⟩, ?_⟩
    -- Another time comes from the activation, which goes first, or from the schedule.
    dsimp only [Entry.touched]
    split
    · next activated =>
      simp only [Bool.and_eq_true, Bool.not_eq_true'] at activated
      exact .inr (.inr (.inl activated.symm))
    · split
      · exact .inl rfl
      · next rescheduled => exact .inr (.inl rescheduled)
  | replanned applied changed free planned =>
    obtain rfl := applyPlain_members applied
    have changes := RulePatch.changedConditions_eq_some changed
    refine ⟨rfl, rfl, rfl, rfl, rfl, rfl, rfl, rfl, rfl, rfl, rfl, rfl, rfl, rfl,
      fun unchanged => absurd changes unchanged, ?_⟩
    -- A rule that ends up active is due. For one that does not, only the schedule is left.
    dsimp only [Entry.touched, Entry.dueAt, Entry.withPlan]
    by_cases active : patch.active.getD old.rule.active = true
    · exact .inr (.inr (.inr ⟨changes, active⟩))
    · rw [Bool.not_eq_true] at active
      simp only [active, Bool.false_and, Bool.false_eq_true, if_false]
      split
      · exact .inl rfl
      · next rescheduled => exact .inr (.inl rescheduled)

/-- A row that was replaced is what the patch makes of it, in the next version, and every other
rule has the row from before. -/
theorem Updated.changedBy {id : RuleId} (indexed : c.Indexed)
    (h : Updated setup id patch c now new c') :
    ∃ old, c.get? id = some old ∧ old.ChangedBy patch new ∧ new.version = old.version + 1 ∧
      c'.get? id = some new ∧ ∀ other, other ≠ id → c'.get? other = c.get? other := by
  obtain ⟨old, next, found, patched, rfl, -⟩ := h.patched
  have next_id : next.id = id := patched.id_eq.trans (indexed.id_of_get? found)
  have rows : ∀ a, c'.get? a =
      if id = a then some { next with version := old.version + 1 } else c.get? a := by
    rw [← next_id]
    exact Catalog.get?_of_put h.rows
  refine ⟨old, found, ?_, rfl, ?_, fun other ne => ?_⟩
  · exact { patched.changedBy with
      samePlan := fun unchanged => { patched.changedBy.samePlan unchanged with } }
  · rw [rows, if_pos rfl]
  · rw [rows, if_neg ne.symm]

/-- A change that succeeds has replaced the row. -/
theorem updated_of_run {s s' : State} {id : RuleId} {outcome : RuleOutcome}
    (done : (updateRule setup id patch).outcome.run s = (.ok outcome, s')) :
    ∃ now, Updated setup id patch s.catalog now outcome.entry s'.catalog := by
  have updated := updateRule_yields setup id patch s
  rw [Action.Yields, Program.yields_iff, done] at updated
  obtain ⟨now, -, updated⟩ := updated
  exact ⟨now, updated⟩

/-- In every catalogue that comes up each row is stored under its own identifier. -/
theorem Reachable.indexed {Outside : State → State → Prop} {s : State}
    (indexed_kept : ∀ s s', Outside s s' → s.catalog.Indexed → s'.catalog.Indexed)
    (h : Reachable setup Outside s) : s.catalog.Indexed := by
  induction h with
  | start clock engine => exact Catalog.indexed_empty
  | apply operation _ ih =>
    exact operation.apply_keeps (fun s => s.catalog.Indexed)
      (fun r _ indexed => State.perform_indexed indexed r) ih
  | outside _ change ih => exact indexed_kept _ _ change ih

/-- In any state that comes up, a change that succeeds touches what its patch names. Only the row
of the rule changes: it keeps its identifier, the name and the table of its segment, and all that
runs and the creation have left in it. The name (trimmed), the description, the schedule and the
activity are those of the patch, if it has them, and the plan is another only if the conditions
are. The time of the next run is another only if the schedule is, if the rule becomes active, or
if its conditions change and it ends up active. The version is the next one.

Between operations anything can go on that leaves the rows indexed, such as the requests of other
operations in progress. -/
theorem update_touches_named {setup : Setup} {Outside : State → State → Prop} {s s' : State}
    (indexed_kept : ∀ s s', Outside s s' → s.catalog.Indexed → s'.catalog.Indexed)
    (h : Reachable setup Outside s) {id : RuleId} {patch : RulePatch} {outcome : RuleOutcome}
    (done : (updateRule setup id patch).outcome.run s = (.ok outcome, s')) :
    ∃ old new, s.catalog.get? id = some old ∧ s'.catalog.get? id = some new ∧
      outcome.entry = new ∧ old.ChangedBy patch new ∧ new.version = old.version + 1 ∧
      ∀ other, other ≠ id → s'.catalog.get? other = s.catalog.get? other := by
  have indexed := h.indexed indexed_kept
  obtain ⟨now, updated⟩ := updated_of_run done
  obtain ⟨old, found, changed, version, stored, others⟩ := updated.changedBy indexed
  exact ⟨old, outcome.entry, found, stored, rfl, changed, version, others⟩

/-- The state after a rule was created and a request came in between. -/
private def requested : State :=
  ((Operation.apply {} (({} : Setup).start (.still ⟨0, 0⟩) {})
    (.create { name := "cards", conditions := [.of "transaction_type" "=" (.text "CARD")] })).perform
      .allocateId).2

/-- Another name, and the conditions from before with one of them twice. -/
private def repeating : RulePatch where
  name := some " all cards "
  conditions := some [.of "transaction_type" "=" (.text "CARD"),
    .of "transaction_type" "=" (.text "CARD")]

/-- The outcome of the change. -/
private def repeated : Except Failure RuleOutcome × State :=
  (updateRule {} (RuleId.ofNat 1) repeating).outcome.run requested

theorem update_touches_named_repeated :
    ∃ old new, requested.catalog.get? (RuleId.ofNat 1) = some old ∧
      repeated.2.catalog.get? (RuleId.ofNat 1) = some new ∧ old.ChangedBy repeating new ∧
      old.rule.name = "cards" ∧ new.rule.name = "all cards" ∧ new.version = 2 := by
  have reachable : Reachable {} (fun s s' => ∃ r, s' = (s.perform r).2) requested :=
    .outside (.apply _ (.start _ _)) ⟨_, rfl⟩
  have indexed_kept : ∀ s s' : State, (∃ r, s' = (s.perform r).2) → s.catalog.Indexed →
      s'.catalog.Indexed := by
    rintro s _ ⟨r, rfl⟩ indexed
    exact State.perform_indexed indexed r
  have succeeds : repeated.1.toBool = true := by decide +kernel
  cases result : repeated.1 with
  | error failure =>
    rw [result] at succeeds
    cases succeeds
  | ok outcome =>
    have done : (updateRule {} (RuleId.ofNat 1) repeating).outcome.run requested =
        (.ok outcome, repeated.2) := Prod.ext result rfl
    obtain ⟨old, new, found, stored, -, changed, version, -⟩ :=
      update_touches_named indexed_kept reachable done
    have before : (requested.catalog.get? (RuleId.ofNat 1)).map
        (fun e => (e.rule.name, e.version)) = some ("cards", 1) := by decide +kernel
    have after : (repeated.2.catalog.get? (RuleId.ofNat 1)).map
        (fun e => (e.rule.name, e.version)) = some ("all cards", 2) := by decide +kernel
    rw [found, Option.map_some, Option.some.injEq, Prod.mk.injEq] at before
    rw [stored, Option.map_some, Option.some.injEq, Prod.mk.injEq] at after
    exact ⟨old, new, found, stored, changed, before.1, after.1, after.2⟩

end Cohort
