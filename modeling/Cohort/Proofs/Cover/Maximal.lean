import Cohort.Proofs.Cover.Greedy

/-!
# Maximal covers

A greedy cover is not the best one, but it cannot be extended: each rule that it could have made
use of shares a key with the rules that it does make use of. It divides the keys of the conditions
exactly, and there is a cover whenever a single rule can be made use of.

## Main definitions

* `Cover.Maximal` — a cover is exact and cannot be extended

## Main result

* `Cover.find?_maximal` — the cover that is found is maximal, and none is found only if no rule
  can be made use of
-/

namespace Cohort

variable {conditions : List Condition} {rules chosen : List Rule} {excluded : List RuleId}
  {cover : Cover} {r : Rule}

/-- The cover makes use of some chosen rules. They have no keys in common, and with what is left
they have the keys of the conditions. What is left are the first conditions of all other keys. No
other rule could be made use of in addition. -/
structure Cover.Maximal (rules : List Rule) (excluded : List RuleId) (conditions : List Condition)
    (chosen : List Rule) (cover : Cover) : Prop where
  dependencies : cover.dependencies = chosen.map Rule.id
  nonempty : cover.dependencies ≠ []
  distinct : cover.dependencies.Nodup
  covers : ∀ r ∈ chosen, r ∈ rules ∧ r.Covers rules excluded conditions
  apart : chosen.Pairwise fun r r' => ∀ k ∈ r.declaredKeys.keys, k ∉ r'.declaredKeys.keys
  exact : ∀ k, k ∈ (KeySet.ofConditions conditions).keys ↔
    (∃ r ∈ chosen, k ∈ r.declaredKeys.keys) ∨ k ∈ (KeySet.ofConditions cover.residual).keys
  left_apart : ∀ r ∈ chosen, ∀ k ∈ r.declaredKeys.keys,
    k ∉ (KeySet.ofConditions cover.residual).keys
  residual : cover.residual = (Condition.firsts conditions).filter fun c =>
    chosen.all fun r => !r.declaredKeys.contains c.key
  maximal : ∀ r ∈ rules, r.Covers rules excluded conditions → r.id ∉ cover.dependencies →
    ∃ k ∈ r.declaredKeys.keys, ∃ r' ∈ chosen, k ∈ r'.declaredKeys.keys

namespace Cover

theorem nodup_selection (distinct : (rules.map Rule.id).Nodup) :
    ((selection conditions rules excluded).map Candidate.id).Nodup := by
  have in_order := ((sortBy_perm Candidate.before _).map Candidate.id).nodup_iff.mpr
    (nodup_candidates distinct (.ofConditions conditions) excluded)
  exact ((taken_sublist _ _).map _).nodup in_order

/-- A cover that is found is maximal, with the rules of its selection. -/
theorem maximal_of_find? (distinct : (rules.map Rule.id).Nodup)
    (found : find? conditions rules excluded = some cover) :
    ∃ chosen, cover.Maximal rules excluded conditions chosen := by
  obtain ⟨chosen, covers, same⟩ := exists_rules_of_selection conditions rules excluded
  obtain ⟨nonempty, dependencies, residual⟩ := find?_eq_some found
  have ids : cover.dependencies = chosen.map Rule.id := by
    rw [dependencies, same, List.map_map]
    rfl
  have left : ∀ k, k ∈ (KeySet.ofConditions cover.residual).keys ↔
      k ∈ (KeySet.ofConditions conditions).keys ∧ ∀ r ∈ chosen, k ∉ r.declaredKeys.keys := by
    intro k
    rw [mem_residual found, same, List.forall_mem_map]
    rfl
  refine ⟨chosen, ids, ?_, ?_, covers, ?_, fun k => ?_, fun r hr k hk h => ?_, ?_, ?_⟩
  · rwa [dependencies, ne_eq, List.map_eq_nil_iff]
  · exact dependencies ▸ nodup_selection distinct
  · have apart : (selection conditions rules excluded).Pairwise _ := pairwise_taken _ _
    rw [same] at apart
    exact List.pairwise_map.mp apart
  · rw [left]
    constructor
    · intro hk
      by_cases covered : ∃ r ∈ chosen, k ∈ r.declaredKeys.keys
      · exact .inl covered
      · exact .inr ⟨hk, fun r hr hrk => covered ⟨r, hr, hrk⟩⟩
    · rintro (⟨r, hr, hk⟩ | ⟨hk, -⟩)
      · exact KeySet.mem_of_subset (covers r hr).2.part hk
      · exact hk
  · exact ((left k).mp h).2 r hr hk
  · rw [residual, same]
    simp only [List.all_map]
    rfl
  · intro r hr covers not_chosen
    have passed_over : r.candidate ∉ selection conditions rules excluded := by
      intro chosen
      exact not_chosen (dependencies ▸ List.mem_map_of_mem (f := Candidate.id) chosen)
    obtain ⟨k, hk, x, hx, hxk⟩ := meets_selection hr covers passed_over
    rw [same] at hx
    obtain ⟨r', hr', rfl⟩ := List.mem_map.mp hx
    exact ⟨k, hk, r', hr', hxk⟩

/-- The cover that is found is exact and cannot be extended. None is found just if no rule can be
made use of. -/
theorem find?_maximal (conditions : List Condition) (rules : List Rule) (excluded : List RuleId)
    (distinct : (rules.map Rule.id).Nodup) :
    (find? conditions rules excluded = none ↔ ∀ r ∈ rules, ¬ r.Covers rules excluded conditions) ∧
      ∀ cover, find? conditions rules excluded = some cover →
        ∃ chosen, cover.Maximal rules excluded conditions chosen := by
  refine ⟨?_, fun cover found => maximal_of_find? distinct found⟩
  rw [find?_eq_none, List.eq_nil_iff_forall_not_mem]
  constructor
  · exact fun none r hr covers => none _ (mem_candidates.mpr ⟨r, hr, covers, rfl⟩)
  · intro none x hx
    obtain ⟨r, hr, covers, -⟩ := mem_candidates.mp hx
    exact none r hr covers

private def inTier : Condition := .of "city_tier" "=" (.int 1)

private def byCard : Condition := .of "transaction_type" "=" (.text "CARD")

private def often : Condition := .of "transaction_count" ">=" (.int 5)

/-- Two rules for two of three conditions each, and one for one of them. -/
private def overlappingRules : List Rule :=
  [.plain 1 [inTier], .plain 2 [inTier, byCard], .plain 3 [byCard, often]]

/-- Of two rules that have a key in common the one with the lower identifier is made use of. A
condition that is left is left once. -/
theorem find?_maximal_overlapping :
    (overlappingRules.map Rule.id).Nodup ∧
      ¬ (∀ r ∈ overlappingRules, ¬ r.Covers overlappingRules [] [often, inTier, often, byCard]) ∧
        ∃ chosen, (Cover.mk [.ofNat 2] [often]).Maximal overlappingRules []
          [often, inTier, often, byCard] chosen := by
  have distinct : (overlappingRules.map Rule.id).Nodup := by decide
  have found : find? [often, inTier, often, byCard] overlappingRules [] =
      some ⟨[.ofNat 2], [often]⟩ := by decide +kernel
  obtain ⟨no_cover, maximal⟩ :=
    find?_maximal [often, inTier, often, byCard] overlappingRules [] distinct
  refine ⟨distinct, fun none => ?_, maximal _ found⟩
  rw [no_cover.mpr none] at found
  cases found

end Cover

end Cohort
