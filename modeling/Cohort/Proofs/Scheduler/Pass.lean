import Cohort.Proofs.Lineage.Order
import Cohort.Proofs.Manager.History
import Cohort.Proofs.Run.Refreshing
import Cohort.Proofs.Run.Waiting

/-!
# Passes

A pass runs every due rule once, in an order in which each rule comes after its operands. So
every operand is fresh when it is read, whether or not stale operands are computed on demand,
and in the end every table holds what its rule denotes.

## Main results

* `dispatch_yields`, `complete_yields` — a run with its bookkeeping
* `passOver_yields` — the runs of a pass, one after the other
* `runPass_tables`, `runPass_refreshes` — a pass over a sound catalogue in which every rule is due
-/

namespace Cohort

open Cohort.Action

variable {setup : Setup} {c : Catalog} {ts : List Transaction} {s s' : State} {id : RuleId}

/-- Requests that leave the data alone do so one after the other. -/
theorem Program.yields_leavesData {r : Request} {β : Type} {f : r.Answer → Program β}
    {post : β → State → Prop} (h : r.leavesData = true) (advances : Advances c ts s s')
    (rest : ∀ answer s'', Advances c ts s s'' → (∀ id, Fresh c ts s' id → Fresh c ts s'' id) →
      (f answer).Yields s'' post) :
    (Program.call r >>= f).Yields s' post := by
  have step : Advances c ts s' (s'.perform r).2 := State.perform_advances h advances.steady
  rw [Program.yields_bind, Program.yields_call]
  exact rest _ _ (advances.trans step) fun _ fresh => step.fresh fresh

/-- The run of a rule whose operands are fresh succeeds. -/
theorem dispatch_yields (sound : c.Sound) (tables : c.TablesDistinct) (steady : Steady c ts s)
    (listed : (c.get? id).isSome)
    (operands : ∀ a, Relation.TransGen (DependsOn c.list) id a → Fresh c ts s a)
    (generation : Option Nat) :
    (dispatch setup id generation).Yields s fun result s' =>
      (∃ rows, result = .ok rows) ∧ Advances c ts s s' ∧ Fresh c ts s' id := by
  have run : ∀ s₁, Advances c ts s s₁ → (∀ a, Fresh c ts s a → Fresh c ts s₁ a) →
      (executeLocked setup id).Yields s₁ fun result s' =>
        (∃ rows, result = .ok rows) ∧ Advances c ts s s' ∧ Fresh c ts s' id := by
    intro s₁ advances₁ fresh₁
    rw [executeLocked, Program.yields_bind, outcome_yields]
    refine (execute_yields sound tables advances₁.steady listed
      fun a ha => .inl (fresh₁ a (operands a ha))).of_success ?_
    rintro rows s₂ ⟨ran, fresh₂⟩
    refine Program.yields_leavesData rfl (advances₁.trans ran) fun _ s₃ advances₃ fresh₃ => ?_
    refine Program.yields_leavesData rfl advances₃ fun _ s₄ advances₄ fresh₄ => ?_
    refine Program.yields_leavesData rfl advances₄ fun _ s₅ advances₅ fresh₅ => ?_
    exact (Program.yields_pure _).mpr
      ⟨⟨rows, rfl⟩, advances₅, fresh₅ id (fresh₄ id (fresh₃ id fresh₂))⟩
  -- Before it there are a slot and a lock to take.
  unfold dispatch
  refine Program.yields_leavesData rfl (.refl steady) fun _ s₁ advances₁ fresh₁ => ?_
  refine Program.yields_leavesData rfl advances₁ fun _ s₂ advances₂ fresh₂ => ?_
  cases generation with
  | none => exact run s₂ advances₂ fun a ha => fresh₂ a (fresh₁ a ha)
  | some generation =>
    refine Program.yields_leavesData rfl advances₂ fun _ s₃ advances₃ fresh₃ => ?_
    exact run s₃ advances₃ fun a ha => fresh₃ a (fresh₂ a (fresh₁ a ha))

/-- The times of a run can be written down for a rule that is fresh. -/
theorem recordRun_advances (last next : Instant) (steady : Steady c ts s)
    (fresh : Fresh c ts s id) :
    Advances c ts s (s.perform (.recordRun id last next)).2 ∧
      Fresh c ts (s.perform (.recordRun id last next)).2 id := by
  obtain ⟨e, found, materialized, table⟩ := fresh
  have recorded : (s.perform (.recordRun id last next)).2 =
      { s with
        catalog := { s.catalog with rows := Assoc.put id (e.ran last next) s.catalog.rows }
        faults := {} } := by
    simp only [State.perform, State.recordRun, steady.faults, Fault.trip, Catalog.recordRun,
      Catalog.modify, found]
  generalize (s.perform (.recordRun id last next)).2 = s' at recorded ⊢
  have hengine : s'.engine = s.engine := by rw [recorded]
  have hrows : s'.catalog.rows = Assoc.put id (e.ran last next) s.catalog.rows := by rw [recorded]
  obtain ⟨steady', get?_eq⟩ := steady.of_put found (e.definition_ran last next) hrows
    (by rw [hengine]) (hengine ▸ steady.healthy) (by rw [recorded])
  have fresh : Fresh c ts s' id := by
    refine ⟨e.ran last next, by rw [get?_eq, if_pos rfl], materialized, ?_⟩
    rw [hengine]
    exact table
  refine ⟨⟨steady', fun a => ?_⟩, fresh⟩
  by_cases ha : id = a
  · exact .inl (ha ▸ fresh)
  · exact .inr ⟨by rw [get?_eq, if_neg ha], fun e' _ => by rw [hengine]⟩

/-- The bookkeeping after a run that has succeeded leaves fresh tables fresh, and the job is due
again. -/
theorem complete_yields (steady : Steady c ts s) (fresh : Fresh c ts s id)
    (generation : Option Nat) (schedule : Schedule) (previous : Instant) (rows : Nat) :
    (complete setup id generation schedule previous (.ok rows)).Yields s fun next s' =>
      next.isSome = true ∧ Advances c ts s s' := by
  unfold complete
  refine Program.yields_leavesData rfl (.refl steady) fun now s₁ advances₁ fresh₁ => ?_
  simp only [dueAfter?, Except.isOk, Except.toBool, if_true]
  rw [Program.yields_bind, Program.yields_call]
  obtain ⟨recorded, -⟩ := recordRun_advances now (schedule.nextRun now) advances₁.steady
    (fresh₁ id fresh)
  have advances₂ := advances₁.trans recorded
  cases generation with
  | none => exact (Program.yields_pure _).mpr ⟨rfl, advances₂⟩
  | some generation =>
    refine Program.yields_leavesData rfl advances₂ fun _ s₃ advances₃ _ => ?_
    exact (Program.yields_pure _).mpr ⟨rfl, advances₃⟩

/-- The runs of a pass make one table after the other fresh. What is done already has nothing open
that it depends on, and what comes depends only on what was done before. -/
theorem passOver_yields (sound : c.Sound) (tables : c.TablesDistinct) (began : Instant) :
    ∀ (entries : List Entry) (done : List RuleId) (report : PassReport) (s : State),
      Steady c ts s → (∀ a ∈ done, Fresh c ts s a) →
      (∀ a ∈ done, ∀ p, DependsOn c.list a p → p ∈ done) →
      (∀ e ∈ entries, (c.get? e.id).isSome) →
      ExecutionOrder.InOrder c.list done (entries.map Entry.id) →
      (passOver setup began entries report).Yields s fun result s' =>
        ∃ report', result = some report' ∧
          report'.succeeded.map Prod.fst =
            report.succeeded.map Prod.fst ++ entries.map Entry.id ∧
          report'.failed = report.failed ∧ report'.skipped = report.skipped ∧
          Steady c ts s' ∧ ∀ a, a ∈ done ∨ a ∈ entries.map Entry.id → Fresh c ts s' a := by
  intro entries
  induction entries with
  | nil =>
    intro done report s steady fresh _ _ _
    exact (Program.yields_pure _).mpr ⟨report, rfl, by simp, rfl, rfl, steady, by simpa using fresh⟩
  | cons e rest ih =>
    intro done report s steady fresh closed listed inOrder
    obtain ⟨needs_done, rest_inOrder⟩ := inOrder
    obtain ⟨listed_e, listed_rest⟩ := List.forall_mem_cons.mp listed
    -- The rule comes after the rules that it is built on.
    have parents_done : ∀ p, DependsOn c.list e.id p → p ∈ done := by
      intro p hp
      obtain ⟨x, hx, hid, hpx⟩ := hp
      exact needs_done p
        (ExecutionOrder.mem_needs.mpr ⟨⟨x, hx, hid, hpx⟩, sound.exists_parent hx hpx⟩)
    -- Whatever the rule depends on, through however many steps, is done.
    have operands_done : ∀ a, Relation.TransGen (DependsOn c.list) e.id a → a ∈ done := by
      intro a ha
      induction ha with
      | single h => exact parents_done _ h
      | tail _ h done_before => exact closed _ done_before _ h
    unfold passOver
    refine Program.yields_leavesData rfl (.refl steady) fun generation s₁ advances₁ fresh₁ => ?_
    rw [Program.yields_bind]
    refine (dispatch_yields sound tables advances₁.steady listed_e
      (fun a ha => fresh₁ a (fresh a (operands_done a ha))) generation).mono ?_
    rintro result s₂ ⟨⟨rows, rfl⟩, advances₂, fresh₂⟩
    dsimp only
    rw [Program.yields_bind]
    refine (complete_yields advances₂.steady fresh₂ generation e.rule.schedule _ rows).mono ?_
    rintro next s₃ ⟨hnext, advances₃⟩
    obtain ⟨time, rfl⟩ := Option.isSome_iff_exists.mp hnext
    have advances : Advances c ts s₁ s₃ := advances₂.trans advances₃
    -- Now the rule is done as well, and the rest goes on from there.
    have fresh₃ : ∀ a ∈ done ++ [e.id], Fresh c ts s₃ a := by
      intro a ha
      rcases List.mem_append.mp ha with ha | ha
      · exact advances.fresh (fresh₁ a (fresh a ha))
      · obtain rfl := List.mem_singleton.mp ha
        exact advances₃.fresh fresh₂
    have closed₃ : ∀ a ∈ done ++ [e.id], ∀ p, DependsOn c.list a p → p ∈ done ++ [e.id] := by
      intro a ha p hp
      refine List.mem_append_left _ ?_
      rcases List.mem_append.mp ha with ha | ha
      · exact closed a ha p hp
      · obtain rfl := List.mem_singleton.mp ha
        exact parents_done p hp
    refine (ih (done ++ [e.id]) (report.add e.id (.ok rows)) s₃ advances.steady fresh₃ closed₃
      listed_rest rest_inOrder).mono ?_
    rintro result s₄ ⟨report', rfl, succeeded, failed, skipped, steady₄, fresh₄⟩
    refine ⟨report', rfl, ?_, failed, skipped, steady₄, fun a ha => fresh₄ a ?_⟩
    · rw [succeeded]
      simp [PassReport.add]
    · simp only [List.map_cons, List.mem_cons, List.mem_append, List.not_mem_nil, or_false] at ha ⊢
      tauto

/-- A pass over a sound catalogue in which every rule is due runs every rule with success, and
every table holds what its rule denotes. -/
theorem runPass_yields (setup : Setup) (sound : s.catalog.Sound) (tables : s.catalog.TablesDistinct)
    (due : ∀ e ∈ s.catalog.list, e.isDue s.clock.read.1 = true) (healthy : s.engine.Healthy)
    (faults : s.faults = {}) :
    (runPass setup).Yields s fun result s' => ∃ report, result = some report ∧
      report.failed = [] ∧ report.skipped = [] ∧
      (report.succeeded.map Prod.fst).Perm (s.catalog.list.map Entry.id) ∧
      Steady s.catalog s.engine.transactions s' ∧
      ∀ e ∈ s.catalog.list, Fresh s.catalog s.engine.transactions s' e.id := by
  have steady : Steady s.catalog s.engine.transactions s :=
    ⟨sound.indexed, .refl _, rfl, healthy, faults⟩
  have all_due : (s.catalog.list.filter fun e => e.isDue s.clock.read.1) = s.catalog.list :=
    List.filter_eq_self.mpr due
  have ordered := ordered_perm sound.acyclic sound.indexed.nodup_ids
  -- Every identifier in the order has a row.
  have placed := map_id_executionOrder_entries s.catalog.list
  have timed : Advances s.catalog s.engine.transactions s (s.perform .now).2 :=
    State.perform_advances rfl steady
  have listed : ((s.perform .now).2.perform .listRows).1 = s.catalog.list := rfl
  have read : (s.perform .now).1 = s.clock.read.1 := rfl
  unfold runPass
  rw [Program.yields_bind, Program.yields_call, Program.yields_bind, Program.yields_call, listed,
    read]
  dsimp only
  rw [all_due, executionOrder_cyclic sound.acyclic]
  refine (passOver_yields sound tables s.clock.read.1 _ [] { skipped := [] } _ timed.steady
    (by simp) (by simp) ?_ ?_).mono ?_
  · intro e he
    obtain ⟨id, -, found⟩ := List.mem_filterMap.mp he
    exact sound.indexed.isSome_get?.mpr ⟨e, List.mem_of_find?_eq_some found, rfl⟩
  · rw [placed]
    exact executionOrder_inOrder _
  · rintro result s' ⟨report, rfl, succeeded, failed, skipped, steady', fresh⟩
    rw [placed] at succeeded fresh
    refine ⟨report, rfl, failed, skipped, ?_, steady', fun e he => fresh e.id (.inr ?_)⟩
    · rw [succeeded]
      exact ordered
    · exact ordered.mem_iff.mpr (List.mem_map.mpr ⟨e, he, rfl⟩)

/-- After a pass over a sound catalogue in which every rule is due, every output table holds what
its rule denotes. -/
theorem runPass_tables (setup : Setup) {s : State} (sound : s.catalog.Sound)
    (tables : (s.catalog.list.map fun e => e.segment.table).Nodup)
    (due : ∀ e ∈ s.catalog.list, e.isDue s.clock.read.1 = true)
    (healthy : s.engine.Healthy) (faults : s.faults = {}) :
    ∃ report, ((runPass setup).run s).1 = some report ∧
      report.failed = [] ∧ report.skipped = [] ∧
      (report.succeeded.map Prod.fst).Perm (s.catalog.list.map Entry.id) ∧
      ∀ e ∈ s.catalog.list, ((runPass setup).run s).2.engine.table? e.segment.table =
        some (meaning s.catalog.list s.engine.transactions e.id) := by
  have distinct : s.catalog.TablesDistinct := fun e he e' he' same =>
    congrArg Entry.id (List.inj_on_of_nodup_map tables he he' same)
  obtain ⟨report, hreport, failed, skipped, succeeded, steady, fresh⟩ :=
    Program.yields_iff.mp (runPass_yields setup sound distinct due healthy faults)
  refine ⟨report, hreport, failed, skipped, succeeded, fun e he => ?_⟩
  obtain ⟨e', found, -, table⟩ := fresh e he
  -- The row has changed, but its table has not.
  obtain ⟨e₀, he₀, hid, same⟩ := steady.definition sound.indexed found
  obtain rfl := sound.indexed.eq_of_id_eq he₀ he hid
  rw [← table, ← e₀.definition_table, same, e'.definition_table]

/-- A pass that goes on alone over a sound catalogue in which every rule is due never waits, runs
every rule once with success, and leaves in every output table what the rule denotes, whether or
not stale operands are computed on demand. -/
theorem runPass_refreshes (setup : Setup) {s : State} (sound : s.catalog.Sound)
    (tables : (s.catalog.list.map fun e => e.segment.table).Nodup)
    (due : ∀ e ∈ s.catalog.list, e.isDue s.clock.read.1 = true)
    (healthy : s.engine.Healthy) (faults : s.faults = {}) (unlocked : s.locks = [])
    (free : 0 < s.slots) :
    (runPass setup).NeverWaits s ∧
      ∃ report, ((runPass setup).run s).1 = some report ∧
        report.failed = [] ∧ report.skipped = [] ∧
        (report.succeeded.map Prod.fst).Perm (s.catalog.list.map Entry.id) ∧
        ∀ e ∈ s.catalog.list, ((runPass setup).run s).2.engine.table? e.segment.table =
          some (meaning s.catalog.list s.engine.transactions e.id) :=
  ⟨runPass_neverWaits unlocked free, runPass_tables setup sound tables due healthy faults⟩

/-- A system with two transactions of a user, one rule for each kind of them, and a rule for both
that is narrowed to a city tier. -/
private def shopping : State :=
  let day : Date := ⟨2024, 2, 1, by decide⟩
  let transactions : List Transaction :=
    [⟨some "ann", 10.0, day, 1, "UPI", none⟩, ⟨some "ann", 20.0, day, 1, "CARD", none⟩]
  let upi := Condition.of "transaction_type" "=" (.text "UPI")
  let card := Condition.of "transaction_type" "=" (.text "CARD")
  let tier := Condition.of "city_tier" "=" (.int 1)
  let started := ({} : Setup).start (.still ⟨0, 0⟩) { transactions }
  Operation.apply {} (Operation.apply {} (Operation.apply {} started
    (.create { name := "a", conditions := [upi] }))
    (.create { name := "b", conditions := [card] }))
    (.create { name := "c", conditions := [upi, card, tier] })

theorem runPass_refreshes_shopping :
    shopping.catalog.list.map Entry.parents = [[], [], [RuleId.ofNat 1, RuleId.ofNat 2]] ∧
      ∃ report, ((runPass {}).run shopping).1 = some report ∧ report.failed = [] ∧
        report.skipped = [] ∧ (report.succeeded.map Prod.fst).Perm
          [RuleId.ofNat 1, RuleId.ofNat 2, RuleId.ofNat 3] := by
  have reachable : Reachable {} (fun _ _ => False) shopping := by
    unfold shopping
    exact .apply _ (.apply _ (.apply _ (.start _ _)))
  have sound := (reachable.regular fun _ _ never => never.elim).sound
  have ids : shopping.catalog.list.map Entry.id =
      [RuleId.ofNat 1, RuleId.ofNat 2, RuleId.ofNat 3] := by decide +kernel
  obtain ⟨-, report, hreport, failed, skipped, succeeded, -⟩ :=
    runPass_refreshes {} sound (by decide +kernel) (by decide +kernel)
      ⟨by decide +kernel, by decide +kernel, by decide +kernel⟩ (by decide +kernel)
      (by decide +kernel) (by decide +kernel)
  exact ⟨by decide +kernel, report, hreport, failed, skipped, ids ▸ succeeded⟩

end Cohort
