import Cohort.Manager
import Cohort.Proofs.Catalog.Rows
import Cohort.Proofs.Cover.Greedy
import Cohort.Proofs.Program.Yields

/-!
# Plans

A plan is found by reading the catalogue. This module says which plans can be found for a
rule: a composition keeps the dependencies that it asks for, all of which must have rows, and
conditions without a composition are covered by rules of the catalogue or compiled.

## Main definitions

* `Planned` — the plans that can be found in a catalogue

## Main results

* `plan_yields` — a plan is found in the catalogue, which is only read
* `Planned.parents` — a plan depends on rules of the catalogue that are not excluded
-/

namespace Cohort

variable {setup : Setup} {c c' : Catalog} {conditions : List Condition}
  {composition : Option Composition} {excluded : List RuleId} {p : Plan}

/-! ## Plans found in a catalogue -/

/-- The conditions that a rule of the catalogue stands for. -/
def Catalog.declaredOf (c : Catalog) (id : RuleId) : List Condition :=
  ((c.get? id).map fun e => e.rule.declared).getD []

/-- The plans that can be found in a catalogue for some conditions. -/
inductive Planned (setup : Setup) (c : Catalog) (conditions : List Condition)
    (excluded : List RuleId) : Option Composition → Plan → Prop
  /-- A composition of rules that have rows and may be used. -/
  | composed (composition : Composition) (nonempty : composition.dependencies ≠ [])
      (found : ∀ d ∈ composition.dependencies, (c.get? d).isSome ∧ d ∉ excluded) :
      Planned setup c conditions excluded (some composition)
        { conditions
          declared :=
            if composition.operation = .intersection then
              (composition.dependencies.map c.declaredOf).flatten ++ conditions
            else conditions
          source := .composite composition.dependencies composition.operation
            (setup.view.residual conditions) }
  /-- A cover by rules of the catalogue, or a query where there is none. -/
  | covered :
      Planned setup c conditions excluded none
        (planCover setup conditions (c.list.map Entry.rule) excluded)

namespace Planned

/-- Plans depend on the rows only. -/
theorem of_rows_eq (h : Planned setup c conditions excluded composition p)
    (hr : c'.rows = c.rows) : Planned setup c' conditions excluded composition p := by
  have same_get? : c'.get? = c.get? := by
    funext id
    rw [Catalog.get?, Catalog.get?, hr]
  have same_list : c'.list = c.list := by rw [Catalog.list, Catalog.list, hr]
  have same_declared : c'.declaredOf = c.declaredOf := by
    funext id
    rw [Catalog.declaredOf, Catalog.declaredOf, same_get?]
  cases h with
  | composed composition nonempty found =>
    rw [← same_declared]
    exact .composed composition nonempty (same_get? ▸ found)
  | covered =>
    rw [← same_list]
    exact .covered

/-- A plan depends on rules that have rows and may be used. -/
theorem parents (h : Planned setup c conditions excluded composition p) (indexed : c.Indexed)
    {d : RuleId} (hd : d ∈ p.source.parents) : (c.get? d).isSome ∧ d ∉ excluded := by
  cases h with
  | composed composition nonempty found => exact found d hd
  | covered =>
    unfold planCover at hd
    split at hd
    · next cover found =>
      obtain ⟨r, hr, rfl, -, allowed, -⟩ := Cover.mem_dependencies found hd
      obtain ⟨e, he, rfl⟩ := List.mem_map.mp hr
      exact ⟨indexed.isSome_get?.mpr ⟨e, he, rfl⟩, allowed⟩
    · simp [SegmentSource.parents, SegmentSource.dependsOn?] at hd

end Planned

/-! ## Finding a plan -/

theorem inherited_yields (dependency : RuleId) (s : State) :
    (inherited excluded dependency).Yields s
      (fun declared s' => s' = s ∧ declared = s.catalog.declaredOf dependency ∧
        (s.catalog.get? dependency).isSome ∧ dependency ∉ excluded)
      fun _ s' => s' = s := by
  unfold inherited
  split
  · exact (Action.yields_throw _).mpr rfl
  · next allowed =>
    rw [Action.yields_bind, Action.yields_call]
    simp only [State.perform]
    split
    · exact (Action.yields_throw _).mpr rfl
    · next e found =>
      rw [Action.yields_pure]
      exact ⟨rfl, by simp [Catalog.declaredOf, found], by simp [found], by simpa using allowed⟩

theorem planComposition_yields (composition : Composition) (s : State) :
    (planComposition setup conditions composition excluded).Yields s
      (fun p s' => s' = s ∧ Planned setup s.catalog conditions excluded (some composition) p)
      fun _ s' => s' = s := by
  unfold planComposition
  split
  · exact (Action.yields_throw _).mpr rfl
  · next nonempty =>
    rw [Action.yields_bind]
    -- The operands read so far are those before the ones to come.
    refine (Action.yields_mapM (fun declared rest s' => s' = s ∧ ∃ seen,
      composition.dependencies = seen ++ rest ∧ declared = seen.map s.catalog.declaredOf ∧
        ∀ d ∈ seen, (s.catalog.get? d).isSome ∧ d ∉ excluded) ?_ composition.dependencies [] s
      ⟨rfl, [], rfl, rfl, by simp⟩).mono ?_ fun _ _ h => h
    · rintro declared d rest s' ⟨rfl, seen, hseen, hdeclared, found⟩
      refine (inherited_yields d s').mono ?_ fun _ _ h => h
      rintro more s'' ⟨rfl, rfl, there, allowed⟩
      refine ⟨rfl, seen ++ [d], ?_, ?_, ?_⟩
      · rw [hseen, List.append_assoc, List.singleton_append]
      · rw [hdeclared, List.map_append, List.map_singleton]
      · intro x hx
        rcases List.mem_append.mp hx with hx | hx
        · exact found x hx
        · obtain rfl := List.mem_singleton.mp hx
          exact ⟨there, allowed⟩
    · rintro declared s' ⟨rfl, seen, hseen, hdeclared, found⟩
      rw [List.append_nil] at hseen
      rw [List.nil_append] at hdeclared
      subst hseen hdeclared
      rw [Action.yields_pure]
      exact ⟨rfl, .composed composition (by simpa using nonempty) found⟩

/-- A plan is found in the catalogue, which is left as it is. -/
theorem plan_yields (composition : Option Composition) (s : State) :
    (plan setup conditions composition excluded).Yields s
      (fun p s' => s' = s ∧ Planned setup s.catalog conditions excluded composition p)
      fun _ s' => s' = s := by
  unfold plan
  split
  · exact planComposition_yields _ s
  · rw [Action.yields_bind, Action.yields_call, Action.yields_pure]
    exact ⟨rfl, .covered⟩

end Cohort
