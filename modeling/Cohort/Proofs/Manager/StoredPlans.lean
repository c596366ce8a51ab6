import Cohort.Proofs.Condition.KeySets
import Cohort.Proofs.Manager.History

/-!
# Stored plans

A row keeps the plan that was made when its rule was created or last planned anew. The source of
its segment is then what its own conditions compile to, and an intersection stands for the
conditions of its operands together with its own. The second relates several rows: it lasts
because the conditions that a rule stands for change only while no other rule depends on it.

## Main definitions

* `Entry.plan` — the plan in a row
* `Plan.HoldsIn` — the plan is what its conditions give, in a catalogue

## Main results

* `Planned.holdsIn` — a plan that is found holds, however it is found
* `Catalog.PlansHold.put` — when changes of a row keep all plans
* `reachable_plans` — in all reachable catalogues all plans hold
-/

namespace Cohort

variable {setup : Setup} {c c' : Catalog} {e : Entry} {p : Plan} {conditions : List Condition}
  {excluded : List RuleId} {composition : Option Composition}

/-! ## Plans that hold -/

/-- The plan in a row. -/
def Entry.plan (e : Entry) : Plan := ⟨e.rule.conditions, e.rule.declared, e.segment.source⟩

/-- The plan is what its conditions give in a catalogue: its source is compiled from them, and an
intersection stands for the conditions of its operands and for them. -/
structure Plan.HoldsIn (setup : Setup) (c : Catalog) (p : Plan) : Prop where
  compiled : p.source = .base (setup.view.compile p.conditions).query ∨
    ∃ ids operation, p.source = .composite ids operation (setup.view.residual p.conditions)
  divided : p.source.operation? = some .intersection → ∀ k,
    k ∈ (KeySet.ofConditions p.declared).keys ↔
      (∃ d ∈ p.source.parents, k ∈ (KeySet.ofConditions (c.declaredOf d)).keys) ∨
        k ∈ (KeySet.ofConditions p.conditions).keys

/-- Only the conditions that the operands stand for matter. -/
theorem Plan.HoldsIn.mono (h : p.HoldsIn setup c)
    (same : ∀ d ∈ p.source.parents, c'.declaredOf d = c.declaredOf d) : p.HoldsIn setup c' where
  compiled := h.compiled
  divided hop k := by
    rw [h.divided hop k]
    refine or_congr_left (exists_congr fun d => and_congr_right fun hd => ?_)
    rw [same d hd]

theorem Catalog.declaredOf_of_mem (indexed : c.Indexed) (he : e ∈ c.list) :
    c.declaredOf e.id = e.rule.declared := by
  simp [Catalog.declaredOf, indexed.mem_list.mp he]

/-- A plan that is found holds, whether it is a composition, a cover or a query. -/
theorem Planned.holdsIn (indexed : c.Indexed)
    (h : Planned setup c conditions excluded composition p) : p.HoldsIn setup c := by
  cases h with
  | composed composition nonempty found =>
    refine ⟨.inr ⟨_, _, rfl⟩, fun hop k => ?_⟩
    obtain hop : composition.operation = .intersection := Option.some.inj hop
    simp only [hop, if_true, KeySet.mem_ofConditions, List.mem_append, List.mem_flatten,
      List.mem_map]
    constructor
    · rintro ⟨x, ⟨_, ⟨d, hd, rfl⟩, hx⟩ | hx, key⟩
      · exact .inl ⟨d, hd, x, hx, key⟩
      · exact .inr ⟨x, hx, key⟩
    · rintro (⟨d, hd, x, hx, key⟩ | ⟨x, hx, key⟩)
      · exact ⟨x, .inl ⟨_, ⟨d, hd, rfl⟩, hx⟩, key⟩
      · exact ⟨x, .inr hx, key⟩
  | covered =>
    unfold planCover
    split
    · next cover found =>
      refine ⟨.inr ⟨_, _, rfl⟩, fun _ k => ?_⟩
      obtain ⟨chosen, hchosen, dependencies, divided⟩ := Cover.find?_keys found
      have parents : (SegmentSource.composite cover.dependencies .intersection
        (setup.view.residual cover.residual)).parents = chosen.map Rule.id := dependencies
      -- The chosen rules are those of rows, under whose identifiers they are found again.
      have declared : ∀ r ∈ chosen, c.declaredOf r.id = r.declared := by
        intro r hr
        obtain ⟨e, he, rfl⟩ := List.mem_map.mp (hchosen r hr)
        exact Catalog.declaredOf_of_mem indexed he
      have of_rules : (∃ d ∈ chosen.map Rule.id, k ∈ (KeySet.ofConditions (c.declaredOf d)).keys) ↔
          ∃ r ∈ chosen, k ∈ (KeySet.ofConditions (c.declaredOf r.id)).keys := by
        simp
      rw [divided k, parents, of_rules]
      refine or_congr_left (exists_congr fun r => and_congr_right fun hr => ?_)
      rw [declared r hr]
    · exact ⟨.inl rfl, fun never => by cases never⟩

/-- The plans of all rows hold. -/
def Catalog.PlansHold (setup : Setup) (c : Catalog) : Prop :=
  ∀ e ∈ c.list, e.plan.HoldsIn setup c

namespace Catalog.PlansHold

/-- Plans last while the definitions of all rows stay the same. -/
theorem of_sameDefinitions (h : c.PlansHold setup) (indexed : c.Indexed) (keeps : c.KeepsTo c') :
    c'.PlansHold setup := by
  have same := keeps.2 indexed
  have declared : ∀ id, c'.declaredOf id = c.declaredOf id := by
    intro id
    have listed : ∀ d : Catalog, d.declaredOf id =
        (((d.get? id).map Entry.definition).map fun e => e.rule.declared).getD [] := by
      intro d
      rw [Catalog.declaredOf, Option.map_map]
      rfl
    rw [listed, listed, same id]
  intro e' he'
  obtain ⟨e, he, hdef⟩ := same.exists_mem indexed (keeps.1 indexed) he'
  have same_plan : e.plan = e'.plan := by
    have := congrArg Entry.plan hdef
    exact this
  rw [← same_plan]
  exact (h e he).mono fun d _ => declared d

/-- A row with a plan that holds can be put in place if it stands for the conditions from before, or
if nothing depends on the rule. -/
theorem put (h : c.PlansHold setup) (sound : c.Sound) (hr : c'.rows = Assoc.put e.id e c.rows)
    (valid : e.validate = .ok ()) (holds : e.plan.HoldsIn setup c)
    (kept : (∃ old, c.get? e.id = some old ∧ old.rule.declared = e.rule.declared) ∨
      ∀ a, a ≠ e.id → ¬ DependsOn c.list a e.id) : c'.PlansHold setup := by
  have elsewhere : ∀ d, d ≠ e.id → c'.declaredOf d = c.declaredOf d := by
    intro d hd
    rw [Catalog.declaredOf, Catalog.declaredOf, get?_of_put hr, if_neg hd.symm]
  intro x hx
  rcases (sound.indexed.mem_list_put hr).mp hx with rfl | ⟨hx, other⟩
  -- The rule is not among its own operands.
  · refine holds.mono fun d hd => elsewhere d ?_
    rintro rfl
    exact Entry.not_mem_parents_self valid hd
  · refine (h x hx).mono fun d hd => ?_
    by_cases hd_id : d = e.id
    · subst hd_id
      rcases kept with ⟨old, found, same⟩ | free
      · rw [Catalog.declaredOf, Catalog.declaredOf, get?_of_put hr, if_pos rfl, found,
          Option.map_some, Option.map_some, same]
      · exact absurd ⟨x, hx, rfl, hd⟩ (free x.id other)
    · exact elsewhere d hd_id

/-- A row on which no other depends can be removed. -/
theorem erase {id : RuleId} (h : c.PlansHold setup) (sound : c.Sound)
    (hr : c'.rows = Assoc.erase id c.rows) (free : ∀ a, a ≠ id → ¬ DependsOn c.list a id) :
    c'.PlansHold setup := by
  intro x hx
  obtain ⟨hx, other⟩ := (sound.indexed.mem_list_erase hr).mp hx
  refine (h x hx).mono fun d hd => ?_
  have hd_id : id ≠ d := by
    rintro rfl
    exact free x.id other ⟨x, hx, rfl, hd⟩
  rw [Catalog.declaredOf, Catalog.declaredOf, get?_of_erase hr, if_neg hd_id]

variable {id : RuleId} {patch : RulePatch} {d : RuleDraft} {now : Instant} {stored : Entry}

theorem of_created (h : c.PlansHold setup) (sound : c.Sound)
    (created : Created setup d c now e c') : c'.PlansHold setup := by
  obtain ⟨p, planned, he⟩ := created.planned
  have holds : e.plan.HoldsIn setup c := by
    rw [he]
    exact planned.holdsIn sound.indexed
  exact h.put sound created.rows created.valid holds
    (.inr fun a _ => sound.not_dependsOn_of_get?_eq_none created.fresh a)

theorem of_updated {now : Instant} (h : c.PlansHold setup) (sound : c.Sound)
    (updated : Updated setup id patch c now stored c') : c'.PlansHold setup := by
  obtain ⟨current, next, found, patched, rfl, -⟩ := updated.patched
  obtain ⟨hcurrent, rfl⟩ := sound.indexed.get?_eq_some.mp found
  cases patched with
  | plain applied =>
    obtain ⟨name, -, rfl⟩ := applyPlain_eq applied
    exact h.put sound updated.rows updated.valid (h current hcurrent) (.inl ⟨current, found, rfl⟩)
  -- A rule is planned anew only if no other depends on it.
  | replanned applied _ free planned =>
    obtain ⟨name, -, rfl⟩ := applyPlain_eq applied
    exact h.put sound updated.rows updated.valid (planned.holdsIn sound.indexed)
      (.inr fun a ha => not_dependsOn_of_dependents_eq_nil free ha)

theorem of_step (h : c.PlansHold setup) (sound : c.Sound) (step : c.Step setup c') :
    c'.PlansHold setup := by
  cases step with
  | kept keeps => exact h.of_sameDefinitions sound.indexed keeps
  | created created => exact h.of_created sound created
  | updated updated => exact h.of_updated sound updated
  | restored found same valid rows =>
    obtain ⟨hcurrent, rfl⟩ := sound.indexed.get?_eq_some.mp found
    have holds := h _ hcurrent
    subst same
    exact h.put sound rows valid holds (.inl ⟨_, found, rfl⟩)
  | deleted deleted =>
    exact h.erase sound deleted.rows fun a ha =>
      not_dependsOn_of_dependents_eq_nil deleted.free ha

end Catalog.PlansHold

/-! ## Plans of reachable catalogues -/

theorem Reachable.plansHold {Outside : State → State → Prop} {s : State}
    (catalog_kept : ∀ s s', Outside s s' → s'.catalog = s.catalog)
    (h : Reachable setup Outside s) : s.catalog.PlansHold setup := by
  induction h with
  | start clock engine =>
    intro e he
    simp [Catalog.mem_list_iff, Setup.start] at he
  | apply operation before ih =>
    exact ih.of_step (before.regular catalog_kept).sound (operation.apply_step _)
  | outside _ change ih =>
    rw [catalog_kept _ _ change]
    exact ih

/-- The rows of some identifiers, in their order. -/
theorem Catalog.exists_rows (indexed : c.Indexed) {ids : List RuleId}
    (present : ∀ d ∈ ids, (c.get? d).isSome) :
    ∃ rows : List Entry, (∀ e ∈ rows, e ∈ c.list) ∧ rows.map Entry.id = ids := by
  induction ids with
  | nil => exact ⟨[], by simp, rfl⟩
  | cons first rest ih =>
    obtain ⟨first_present, rest_present⟩ := List.forall_mem_cons.mp present
    obtain ⟨e, he, rfl⟩ := indexed.isSome_get?.mp first_present
    obtain ⟨rows, hrows, rfl⟩ := ih rest_present
    exact ⟨e :: rows, List.forall_mem_cons.mpr ⟨he, hrows⟩, rfl⟩

/-- In every catalogue that comes up through operations, the source of a segment is what the rule's
own conditions compile to, and an intersection stands for the same conditions as its operands
stand for now together with its own. -/
theorem reachable_plans {setup : Setup} {Outside : State → State → Prop} {s : State}
    (catalog_kept : ∀ s s', Outside s s' → s'.catalog = s.catalog)
    (h : Reachable setup Outside s) :
    (∀ e ∈ s.catalog.list, ∀ q, e.segment.source = .base q →
      q = (setup.view.compile e.rule.conditions).query) ∧
    (∀ e ∈ s.catalog.list, ∀ ids operation residual,
      e.segment.source = .composite ids operation residual →
        residual =
          if e.rule.conditions.isEmpty then none
          else some (setup.view.compile e.rule.conditions).query) ∧
    ∀ e ∈ s.catalog.list, e.rule.operation = some .intersection →
      ∃ operands : List Entry, (∀ d ∈ operands, d ∈ s.catalog.list) ∧
        e.rule.dependencies = some (operands.map Entry.id) ∧
        KeySet.ofConditions e.rule.declared =
          (KeySet.unionAll (operands.map fun d => KeySet.ofConditions d.rule.declared)).union
            (KeySet.ofConditions e.rule.conditions) := by
  have plans := h.plansHold catalog_kept
  have sound := (h.regular catalog_kept).sound
  refine ⟨fun e he q source => ?_, fun e he ids operation residual source => ?_,
    fun e he hop => ?_⟩
  · rcases (plans e he).compiled with compiled | ⟨_, _, compiled⟩
    · exact SegmentSource.base.inj (source.symm.trans compiled)
    · cases source.symm.trans compiled
  · rcases (plans e he).compiled with compiled | ⟨_, _, compiled⟩
    · cases source.symm.trans compiled
    · exact (SegmentSource.composite.inj (source.symm.trans compiled)).2.2
  · rcases Entry.valid_cases (sound.valid e he)
      with ⟨q, source, alone⟩ | ⟨ids, operation, residual, source, hids, hoperation, -⟩
    -- A rule with a query of its own has no operation.
    · have complete := Entry.isSome_dependencies (sound.valid e he)
      rw [alone, hop] at complete
      cases complete
    · obtain rfl : operation = .intersection := Option.some.inj (hoperation.symm.trans hop)
      have parents : e.parents = ids := by
        rw [Entry.parents, source]
        rfl
      obtain ⟨operands, listed, rfl⟩ := Catalog.exists_rows sound.indexed
        (parents ▸ sound.present e he)
      refine ⟨operands, listed, hids, KeySet.ofKeys_eq_iff.mpr fun k => ?_⟩
      have divided := (plans e he).divided (by rw [Entry.plan, source]; rfl) k
      have of_operands : (∃ d ∈ e.plan.source.parents,
          k ∈ (KeySet.ofConditions (s.catalog.declaredOf d)).keys) ↔
            ∃ d ∈ operands, k ∈ (KeySet.ofConditions d.rule.declared).keys := by
        rw [show e.plan.source.parents = operands.map Entry.id from parents]
        simp only [List.mem_map, exists_exists_and_eq_and]
        refine exists_congr fun d => and_congr_right fun hd => ?_
        rw [Catalog.declaredOf_of_mem sound.indexed (listed d hd)]
      rw [of_operands] at divided
      rw [List.mem_append, KeySet.mem_unionAll, ← KeySet.mem_ofKeys]
      simp only [List.mem_map, exists_exists_and_eq_and]
      exact divided

/-- The state after two rules with conditions in common, where the first one is changed. -/
private def overlapping : State :=
  [Operation.create { name := "cards", conditions := [.of "transaction_type" "=" (.text "CARD")] },
    .create { name := "cards in tier one", conditions :=
      [.of "transaction_type" "=" (.text "CARD"), .of "city_tier" "=" (.int 1)] },
    .update (RuleId.ofNat 1) { name := some "all cards" }, .pass].foldl
      (Operation.apply {}) (({} : Setup).start (.still ⟨0, 0⟩) {})

theorem reachable_plans_overlapping :
    overlapping.catalog.list.map (fun e => (e.rule.name, e.rule.operation, e.rule.dependencies)) =
      [("all cards", none, none),
        ("cards in tier one", some .intersection, some [RuleId.ofNat 1])] ∧
      ∀ e ∈ overlapping.catalog.list, e.rule.operation = some .intersection →
        ∃ operands : List Entry, (∀ d ∈ operands, d ∈ overlapping.catalog.list) ∧
          e.rule.dependencies = some (operands.map Entry.id) ∧
          KeySet.ofConditions e.rule.declared =
            (KeySet.unionAll (operands.map fun d => KeySet.ofConditions d.rule.declared)).union
              (KeySet.ofConditions e.rule.conditions) := by
  have reachable : Reachable {} (fun _ _ => False) overlapping := (Reachable.start _ _).applyAll _
  exact ⟨by decide +kernel, (reachable_plans (fun _ _ never => never.elim) reachable).2.2⟩

end Cohort
