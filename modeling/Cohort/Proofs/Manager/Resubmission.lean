import Cohort.Proofs.Manager.Patches
import Cohort.Proofs.Manager.Rollback

/-!
# Conditions that are submitted again

A rule stands for the conditions of its draft. An intersection that the draft asks for stands for
those of its operands too, and keeps them: whether a patch changes the conditions of a rule is
decided by all that the rule stands for. So the conditions of the draft can be submitted again
and change nothing, but for such an intersection only together with those of its operands.

## Main definitions

* `Catalog.standsFor` — what a rule stands for that is planned in a catalogue
* `Retains` — the states after another in which a rule has been neither changed nor deleted

## Main results

* `Planned.declared` — a plan stands for what it should
* `Retains.definition` — a rule keeps its definition until it is changed or deleted
* `updateRule_succeeds` — conditions that change nothing are accepted
* `resubmission_keeps_plan_iff` — which conditions can be submitted again
-/

namespace Cohort

open Cohort.Action

variable {setup : Setup} {s s' s₁ : State} {c c' : Catalog} {e old new current : Entry}
  {id : RuleId} {patch : RulePatch} {d : RuleDraft} {now : Instant} {p : Plan}
  {conditions : List Condition} {excluded : List RuleId} {composition : Option Composition}
  {m : Mutation} {failure : Failure}

/-! ## What rules stand for -/

/-- The conditions that a rule stands for with some conditions of its own. An intersection that is
asked for stands for the conditions of its operands too. -/
def Catalog.standsFor (c : Catalog) (conditions : List Condition) :
    Option Composition → List Condition
  | some composition =>
    if composition.operation = .intersection then
      (composition.dependencies.map c.declaredOf).flatten ++ conditions
    else conditions
  | none => conditions

theorem Planned.declared (h : Planned setup c conditions excluded composition p) :
    p.declared = c.standsFor conditions composition := by
  cases h with
  | composed composition => rfl
  | covered =>
    unfold planCover
    split <;> rfl

theorem Created.declared (h : Created setup d c now e c') :
    e.rule.declared = c.standsFor d.conditions d.composition := by
  obtain ⟨p, planned, rfl⟩ := h.planned
  exact planned.declared

theorem Created.active (h : Created setup d c now e c') : e.rule.active = d.active := by
  obtain ⟨p, -, rfl⟩ := h.planned
  rfl

/-- A composition that is kept when the conditions change stands for the new conditions only. -/
theorem standsFor_keptComposition (c : Catalog) (r : Rule) (conditions : List Condition) :
    c.standsFor conditions r.keptComposition = conditions := by
  unfold Rule.keptComposition
  split
  · split
    · rfl
    · next other => exact if_neg other
  · rfl

/-- After a patch with conditions the rule stands for these, whether it was planned anew or not. -/
theorem Patched.declared (h : Patched setup c old patch now new)
    (given : patch.conditions = some conditions) :
    KeySet.ofConditions new.rule.declared = KeySet.ofConditions conditions := by
  cases h with
  | plain applied same =>
    obtain rfl := applyPlain_members applied
    rw [RulePatch.changedConditions, given, Option.filter_eq_none_iff] at same
    have kept : KeySet.ofConditions conditions = KeySet.ofConditions old.rule.declared := by
      simpa using same conditions rfl
    exact kept.symm
  | replanned applied changed free planned =>
    rename_i base changes p
    obtain ⟨same, -⟩ := Option.filter_eq_some_iff.mp changed
    obtain rfl : conditions = changes := Option.some.inj (given.symm.trans same)
    have declared : p.declared = conditions := by
      rw [planned.declared, standsFor_keptComposition]
    exact congrArg KeySet.ofConditions declared

/-! ## Rules that are not changed -/

/-- The rule that an operation changes or deletes, if it succeeds. -/
def Operation.subject? : Operation → Option RuleId
  | .update id _ => some id
  | .delete id => some id
  | _ => none

/-- The operation succeeds in changing or deleting a rule. -/
def Operation.Alters (setup : Setup) (id : RuleId) (s : State) (operation : Operation) : Prop :=
  operation.subject? = some id ∧
    ∃ m : Mutation, m.operation = operation ∧ ((m.program setup).run s).1 = none

/-- The states that come after another without a change of a rule that succeeds. Operations are
called where there is something that carries out jobs, or where there is not. -/
inductive Retains (setup : Setup) (id : RuleId) (s₁ : State) : State → Prop
  | refl : Retains setup id s₁ s₁
  | apply {s : State} (hasRuntime : Bool) (operation : Operation) (h : Retains setup id s₁ s)
      (other : ¬operation.Alters { setup with hasRuntime } id s) :
      Retains setup id s₁ (operation.apply { setup with hasRuntime } s)
  | meanwhile {s s' : State} (h : Retains setup id s₁ s) (change : Meanwhile setup s s') :
      Retains setup id s₁ s'

/-- A change that fails leaves all definitions as they were. -/
theorem NoTrace.sameDefinitions (h : NoTrace m failure s s') :
    s.catalog.SameDefinitions s'.catalog := by
  intro a
  rcases h.rows with same | ⟨changed, patch, current, -, -, found, hrows⟩
  · rw [Catalog.get?, Catalog.get?, same]
  · rw [Catalog.get?_of_put_at hrows]
    split
    -- Only the version is another.
    · next own =>
      rw [← own, found]
      rfl
    · rfl

/-- A change that succeeds keeps the rows of all rules that were there but the one it is about. -/
theorem Mutation.program_others (indexed : s.catalog.Indexed) (setup : Setup) (m : Mutation) :
    (m.program setup).Yields s fun failed s' =>
      failed.elim (∀ a, (s.catalog.get? a).isSome = true → m.operation.subject? ≠ some a →
        s'.catalog.get? a = s.catalog.get? a) fun _ => True := by
  cases m with
  | create draft =>
    refine yields_failure?.mpr ((createRule_yields setup draft s).mono ?_ fun _ _ _ => trivial)
    intro outcome s' created a there _
    -- The new row has an identifier that was free.
    have own : outcome.entry.id ≠ a := by
      rintro rfl
      rw [created.fresh] at there
      cases there
    rw [Catalog.get?_of_put created.rows, if_neg own]
  | update id patch =>
    refine yields_failure?.mpr ((updateRule_yields setup id patch s).mono ?_ fun _ _ _ => trivial)
    rintro outcome s' ⟨now, -, updated⟩ a - other
    obtain ⟨old, -, -, -, -, others⟩ := updated.changedBy indexed
    exact others a fun own => other (congrArg some own.symm)
  | delete id =>
    refine yields_failure?.mpr ((deleteRule_yields setup id s).mono ?_ fun _ _ _ => trivial)
    rintro removed s' ⟨_, deleted⟩ a - other
    rw [Catalog.get?_of_erase deleted.rows, if_neg fun own => other (congrArg some own)]

/-- A change keeps the definition of every rule that was there, unless it succeeds in changing or
deleting this rule. -/
theorem Mutation.run_definition (tidy : s.Tidy) (there : (s.catalog.get? id).isSome = true)
    (other : ¬m.operation.Alters setup id s) :
    ((m.operation.apply setup s).catalog.get? id).map Entry.definition =
      (s.catalog.get? id).map Entry.definition := by
  rw [Mutation.apply_operation]
  cases failed : ((m.program setup).run s).1 with
  | some failure =>
    have spec := Mutation.program_spec tidy setup m
    rw [Program.yields_iff, failed] at spec
    exact NoTrace.sameDefinitions spec id
  | none =>
    have others := Mutation.program_others tidy.consistent.indexed setup m
    rw [Program.yields_iff, failed] at others
    rw [others id there fun own => other ⟨own, m, rfl, failed⟩]

theorem Operation.apply_definition (tidy : s.Tidy) (there : (s.catalog.get? id).isSome = true)
    {operation : Operation} (other : ¬operation.Alters setup id s) :
    ((operation.apply setup s).catalog.get? id).map Entry.definition =
      (s.catalog.get? id).map Entry.definition := by
  cases operation with
  | create draft => exact Mutation.run_definition (m := .create draft) tidy there other
  | update changed patch =>
    exact Mutation.run_definition (m := .update changed patch) tidy there other
  | delete deleted => exact Mutation.run_definition (m := .delete deleted) tidy there other
  | pass =>
    rw [Operation.apply]
    exact (runPass_asks.run_definitions s).2 tidy.consistent.indexed id
  | runByHand run =>
    rw [Operation.apply]
    exact (runByHand_keepsTo run s).2 tidy.consistent.indexed id

theorem Meanwhile.definition (tidy : s.Tidy) (change : Meanwhile setup s s') :
    (s'.catalog.get? id).map Entry.definition = (s.catalog.get? id).map Entry.definition := by
  cases change with
  | request r kept adds => exact (s.perform_definitions kept).2 tidy.consistent.indexed id
  | scheduled stored hasRuntime =>
    rw [Program.yields_iff.mp (schedule_yields _ s)]
  | outside catalog => rw [catalog]

/-- A rule keeps its definition until it is changed or deleted. -/
theorem Retains.definition (h : Retains setup id s₁ s) (tidy : s₁.Tidy)
    (there : (s₁.catalog.get? id).isSome = true) :
    s.Tidy ∧ (s.catalog.get? id).map Entry.definition =
      (s₁.catalog.get? id).map Entry.definition := by
  induction h with
  | refl => exact ⟨tidy, rfl⟩
  | apply hasRuntime operation _ other ih =>
    obtain ⟨tidy', same⟩ := ih
    have there' := there
    rw [← Option.isSome_map (f := Entry.definition), ← same, Option.isSome_map] at there'
    exact ⟨tidy'.operation operation, (operation.apply_definition tidy' there' other).trans same⟩
  | meanwhile _ change ih => exact ⟨ih.1.meanwhile change, (change.definition ih.1).trans ih.2⟩

/-! ## Conditions that change nothing -/

theorem schedule_served (served : current.rule.active = true → ¬setup.Stranded) (s : State) :
    (schedule setup current.rule).Yields s (fun _ _ => True) fun _ _ => False := by
  rcases schedule_cases setup current.rule s
    with ⟨-, run⟩ | ⟨active, stranded, -⟩ | ⟨-, -, clock, next, timer, run⟩
  · exact .of_run_ok run trivial
  · exact absurd stranded (served active)
  · exact .of_run_ok run trivial

/-- A patch with conditions that the rule stands for changes the time of the last change only. -/
theorem applyPatch_unchanged
    (same : KeySet.ofConditions conditions = KeySet.ofConditions current.rule.declared) (s : State) :
    (applyPatch setup current { conditions := some conditions }).Yields s
      (fun result s' => ∃ now, result.1 = current.touched now ∧
        s' = { s with clock := s.clock.read.2 })
      fun _ _ => False := by
  have applied : ∀ now, RulePatch.applyPlain { conditions := some conditions } now current =
      .ok current := by
    intro now
    have kept : RulePatch.applyPlain { conditions := some conditions } now current = .ok _ := rfl
    rw [kept]
    simp
  have unchanged : RulePatch.changedConditions { conditions := some conditions } current.rule =
      none := by
    simp [RulePatch.changedConditions, same]
  unfold applyPatch
  rw [yields_bind, yields_call, yields_bind, yields_check, Program.yields_pure, applied, unchanged]
  dsimp only
  rw [yields_pure]
  exact ⟨_, rfl, rfl⟩

/-- A rule can be changed by conditions that it stands for already, if the change can be
scheduled. -/
theorem updateRule_succeeds (tidy : s.Tidy) (found : s.catalog.get? id = some current)
    (served : current.rule.active = true → ¬setup.Stranded)
    (same : KeySet.ofConditions conditions = KeySet.ofConditions current.rule.declared) :
    (updateRule setup id { conditions := some conditions }).Yields s (fun _ _ => True)
      fun _ _ => False := by
  obtain ⟨stored, own⟩ := tidy.consistent.indexed.get?_eq_some.mp found
  have row : (s.perform (.getRow id)).1 = some current := found
  unfold updateRule updateWithin updateOnce
  rw [yields_bind, yields_call, row]
  dsimp only
  rw [yields_bind]
  refine (applyPatch_unchanged same _).mono ?_ fun _ _ never => never
  rintro ⟨next, warnings⟩ _ ⟨now, rfl, rfl⟩
  dsimp only
  -- The row has the version that was read, and it keeps its name.
  have valid : (current.touched now).validate = .ok () := tidy.consistent.valid current stored
  have seen : s.catalog.get? (current.touched now).id = some current := by
    rw [← found, ← own]
    rfl
  rw [yields_bind, yields_call, State.perform_replaceRow (by exact tidy.faultless)]
  dsimp only [State.perform]
  rw [Catalog.replace_eq valid seen rfl (.inl rfl)]
  unfold commitUpdate
  dsimp only
  rw [yields_bind, yields_of, outcome_yields]
  have served_now : (current.touched now).rule.active = true → ¬setup.Stranded := served
  refine (schedule_served served_now _).mono ?_
    fun _ _ never => never.elim
  intro _ s₁ _
  dsimp only
  rw [yields_bind, yields_call, yields_pure]
  trivial

/-- A rule that was created and is active has been scheduled, so that there is something that
carries out its jobs. -/
theorem createRule_served (setup : Setup) (d : RuleDraft) (s : State) :
    (createRule setup d).Yields s
      (fun outcome _ => outcome.entry.rule.active = true → ¬setup.Stranded) fun _ _ => True := by
  have commit : ∀ (stored : Entry) (warnings : List Warning) (s : State),
      (commitCreate setup stored warnings).Yields s
        (fun outcome _ => outcome.entry.rule.active = true → ¬setup.Stranded) fun _ _ => True := by
    intro stored warnings s
    unfold commitCreate
    rw [yields_bind, yields_of, Program.yields_iff]
    rcases schedule_cases setup stored.rule s
      with ⟨inactive, run⟩ | ⟨-, -, run⟩ | ⟨-, served, _, _, _, run⟩
    · rw [run]
      refine yields_bind_of_forall fun _ _ => (yields_pure _).mpr fun active => ?_
      cases inactive.symm.trans active
    · rw [run]
      exact yields_bind_of_forall fun _ _ => (yields_throw _).mpr trivial
    · rw [run]
      exact yields_bind_of_forall fun _ _ => (yields_pure _).mpr fun _ => served
  unfold createRule
  dsimp only
  split
  · exact (yields_throw _).mpr trivial
  refine yields_bind_of_forall fun rows s₁ => ?_
  split
  · exact (yields_throw _).mpr trivial
  apply yields_bind_of_forall; intro id s₂
  apply yields_bind_of_forall; intro p s₃
  apply yields_bind_of_forall; intro now s₄
  apply yields_bind_of_forall; intro stored s₅
  exact commit stored _ s₅

/-- In a system whose catalogue and engine refuse nothing without a reason, let a rule be created
for a draft and then be neither changed nor deleted, whatever else happens. If the rule is given
conditions that are, as a set, all that it stood for when it was created, this succeeds and leaves
its plan alone. If it is given others and this succeeds, it has another plan. For all drafts that
do not ask for an intersection, the rule stands for the conditions of the draft. -/
theorem resubmission_keeps_plan_iff {setup : Setup} {s₀ s₁ s : State} {d : RuleDraft}
    {created : RuleOutcome} (served : Served setup s₀)
    (made : (createRule setup d).outcome.run s₀ = (.ok created, s₁))
    (later : Retains setup created.entry.id s₁ s) (conditions : List Condition) :
    ∃ old, s.catalog.get? created.entry.id = some old ∧
      (KeySet.ofConditions conditions =
          KeySet.ofConditions (s₀.catalog.standsFor d.conditions d.composition) →
        ∃ outcome s' new, (updateRule setup created.entry.id
            { conditions := some conditions }).outcome.run s = (.ok outcome, s') ∧
          s'.catalog.get? created.entry.id = some new ∧ old.SamePlan new) ∧
      ∀ outcome s' new, (updateRule setup created.entry.id
            { conditions := some conditions }).outcome.run s = (.ok outcome, s') →
          s'.catalog.get? created.entry.id = some new → old.SamePlan new →
        KeySet.ofConditions conditions =
          KeySet.ofConditions (s₀.catalog.standsFor d.conditions d.composition) := by
  have creation := createRule_yields setup d s₀
  have scheduled := createRule_served setup d s₀
  rw [Action.Yields, Program.yields_iff, made] at creation scheduled
  -- The row of the rule has the definition that it was created with.
  have stored : s₁.catalog.get? created.entry.id = some created.entry := by
    rw [Catalog.get?_of_put creation.rows, if_pos rfl]
  have tidy₁ : s₁.Tidy := by
    have applied := (served.apply setup.hasRuntime (.create d)).tidy
    rwa [Operation.apply, made] at applied
  obtain ⟨tidy, same⟩ := later.definition tidy₁ (Option.isSome_of_mem stored)
  rw [stored, Option.map_some] at same
  obtain ⟨old, found, same⟩ := Option.map_eq_some_iff.mp same
  have declared : old.rule.declared = s₀.catalog.standsFor d.conditions d.composition := by
    rw [← creation.declared, ← Entry.definition_declared, same, Entry.definition_declared]
  have active : old.rule.active = true → ¬setup.Stranded := by
    rw [← Entry.definition_active, same, Entry.definition_active]
    exact scheduled
  rw [← declared]
  refine ⟨old, found, fun equal => ?_, fun outcome s' new done stands kept => ?_⟩
  · obtain ⟨outcome, s', done, -⟩ := (updateRule_succeeds tidy found active equal).exists_run_ok
    obtain ⟨now, updated⟩ := updated_of_run done
    obtain ⟨old', found', changed, -, now_stored, -⟩ := updated.changedBy tidy.consistent.indexed
    obtain rfl : old = old' := Option.some.inj (found.symm.trans found')
    refine ⟨outcome, s', _, done, now_stored, changed.samePlan ?_⟩
    rintro ⟨given, hgiven, differ⟩
    obtain rfl : conditions = given := Option.some.inj hgiven
    exact differ equal
  · obtain ⟨now, updated⟩ := updated_of_run done
    obtain ⟨-, -, -, -, now_stored, -⟩ := updated.changedBy tidy.consistent.indexed
    obtain ⟨_, next, -, patched, hnext, -⟩ := updated.patched
    obtain rfl : new = outcome.entry := Option.some.inj (stands.symm.trans now_stored)
    rw [← kept.declared, hnext]
    exact (patched.declared rfl).symm

private def paidByUpi : Condition := .of "transaction_type" "=" (.text "UPI")

private def inTierOne : Condition := .of "city_tier" "=" (.int 1)

/-- The state after one rule was created. -/
private def withOperand : State :=
  Operation.apply {} (({} : Setup).start (.still ⟨0, 0⟩) {})
    (.create { name := "upi", conditions := [paidByUpi] })

/-- The draft narrows the rule explicitly. -/
private def narrowing : RuleDraft where
  name := "upi in tier one"
  conditions := [inTierOne]
  composition := some ⟨[RuleId.ofNat 1], .intersection⟩

private def narrowingCreated : Except Failure RuleOutcome × State :=
  (createRule {} narrowing).outcome.run withOperand

/-- The first rule gets another name, and there is a pass. -/
private def narrowingLater : State :=
  Operation.apply {} (Operation.apply {} narrowingCreated.2
    (.update (RuleId.ofNat 1) { name := some "all upi" })) .pass

theorem resubmission_keeps_plan_iff_narrowing :
    ∃ created old outcome s' new, narrowingCreated.1 = .ok created ∧
      narrowingLater.catalog.get? created.entry.id = some old ∧
      (updateRule {} created.entry.id { conditions := some [inTierOne, paidByUpi] }).outcome.run
        narrowingLater = (.ok outcome, s') ∧
      s'.catalog.get? created.entry.id = some new ∧ old.SamePlan new := by
  have succeeds : narrowingCreated.1.toBool = true := by decide +kernel
  cases result : narrowingCreated.1 with
  | error failure =>
    rw [result] at succeeds
    cases succeeds
  | ok created =>
    have served : Served {} withOperand := .apply true _ (.start _ _ rfl)
    have made : (createRule {} narrowing).outcome.run withOperand =
        (.ok created, narrowingCreated.2) :=
      Prod.ext result rfl
    have second : (narrowingCreated.1.map fun o => o.entry.id).toOption =
        some (RuleId.ofNat 2) := by
      decide +kernel
    rw [result] at second
    obtain second : created.entry.id = RuleId.ofNat 2 := Option.some.inj second
    have later : Retains {} created.entry.id narrowingCreated.2 narrowingLater := by
      refine .apply true _ (.apply true _ .refl ?_) ?_
      · rintro ⟨own, -⟩
        rw [second] at own
        exact absurd own (by decide)
      · rintro ⟨never, -⟩
        cases never
    have equal : KeySet.ofConditions [inTierOne, paidByUpi] = KeySet.ofConditions
        (withOperand.catalog.standsFor narrowing.conditions narrowing.composition) := by
      decide +kernel
    obtain ⟨old, found, accepted, -⟩ :=
      resubmission_keeps_plan_iff served made later [inTierOne, paidByUpi]
    obtain ⟨outcome, s', new, done, stored, kept⟩ := accepted equal
    exact ⟨created, old, outcome, s', new, rfl, found, done, stored, kept⟩

/-- The outcome of submitting the conditions of the draft again. -/
private def resubmitted : Except Failure RuleOutcome × State :=
  (updateRule {} (RuleId.ofNat 2) { conditions := some narrowing.conditions }).outcome.run
    narrowingCreated.2

/-- An intersection that was asked for gives up its operands when the conditions of its draft are
submitted again, although no other rule depends on it. -/
theorem resubmission_drops_operands :
    Served {} withOperand ∧ narrowingCreated.1.toBool = true ∧
      dependents narrowingCreated.2.catalog.list (RuleId.ofNat 2) = [] ∧
      resubmitted.1.toBool = true ∧
      (narrowingCreated.2.catalog.get? (RuleId.ofNat 2)).map
          (fun e => (e.rule.dependencies, e.rule.operation, e.rule.declared)) =
        some (some [RuleId.ofNat 1], some .intersection, [paidByUpi, inTierOne]) ∧
      (resubmitted.2.catalog.get? (RuleId.ofNat 2)).map
          (fun e => (e.rule.dependencies, e.rule.operation, e.rule.declared)) =
        some (none, none, [inTierOne]) :=
  ⟨.apply true _ (.start _ _ rfl), by decide +kernel, by decide +kernel, by decide +kernel,
    by decide +kernel, by decide +kernel⟩

end Cohort
