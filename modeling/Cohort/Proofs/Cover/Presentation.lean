import Cohort.Proofs.Cover.Greedy

/-!
# How rules and conditions are listed

The rules of a catalogue come in some order, and so do the conditions of a draft, where one can be
there twice. Neither matters for a cover, as long as no two rules have the same identifier: then
the order of the candidates is settled by their sizes and identifiers.

## Main definition

* `Cover.Agrees` — covers that make use of the same rules and leave the same keys

## Main results

* `Rule.isReusable_of_perm` — which rules can be used does not depend on the order of the rules
* `Cover.sorted_of_perm` — the candidates are sorted into one order
* `Cover.find?_of_perm` — neither does the cover that is found
-/

namespace Cohort

variable {conditions conditions' : List Condition} {rules rules' : List Rule}
  {excluded excluded' : List RuleId}

/-! ## Sets of keys -/

/-- Sets with the same keys are equal. -/
theorem KeySet.ofConditions_eq {cs ds : List Condition}
    (same : ∀ k, k ∈ (ofConditions cs).keys ↔ k ∈ (ofConditions ds).keys) :
    ofConditions cs = ofConditions ds :=
  congrArg KeySet.mk ((ascending_ofKeys _).eq_of_mem_iff (ascending_ofKeys _) same)

/-! ## Which rules can be used -/

namespace Rule

theorem lookup?_eq_some (distinct : (rules.map Rule.id).Nodup) {id : RuleId} {r : Rule} :
    lookup? rules id = some r ↔ r ∈ rules ∧ r.id = id := by
  have listed : ∀ {x}, lookup? rules id = some x → x ∈ rules ∧ x.id = id := fun found => by
    simpa using List.mem_of_getLast? found
  constructor
  · exact listed
  · rintro ⟨hr, hid⟩
    cases found : lookup? rules id with
    | none =>
      have missing : ∀ x ∈ rules, x.id ≠ id := by simpa [lookup?] using found
      exact absurd hid (missing r hr)
    | some x =>
      obtain ⟨hx, hxid⟩ := listed found
      rw [List.inj_on_of_nodup_map distinct hx hr (hxid.trans hid.symm)]

theorem lookup?_of_perm (distinct : (rules.map Rule.id).Nodup) (perm : rules.Perm rules') :
    lookup? rules = lookup? rules' := by
  funext id
  ext r
  rw [lookup?_eq_some distinct, lookup?_eq_some ((perm.map _).nodup_iff.mp distinct),
    perm.mem_iff]

theorem allOperands_congr (same : lookup? rules = lookup? rules')
    (check : Rule → List RuleId → Bool × List RuleId) :
    allOperands check rules = allOperands check rules' := by
  funext ids visiting
  induction ids generalizing visiting with
  | nil => rfl
  | cons id rest ih => simp only [allOperands, same, ih]

theorem checkReusable_congr (same : lookup? rules = lookup? rules') (depth : Nat) :
    checkReusable rules depth = checkReusable rules' depth := by
  induction depth with
  | zero => rfl
  | succ depth ih =>
    funext r visiting
    simp only [checkReusable, ih, allOperands_congr same]

/-- Which rules can be used does not depend on the order of the rules. -/
theorem isReusable_of_perm (distinct : (rules.map Rule.id).Nodup) (perm : rules.Perm rules') :
    isReusable rules = isReusable rules' := by
  funext r
  rw [isReusable, isReusable, checkReusable_congr (lookup?_of_perm distinct perm), perm.length_eq]

end Rule

/-! ## The order of the candidates -/

namespace Cover

/-- Covers that make use of the same rules, and leave conditions with the same keys. -/
structure Agrees (a b : Cover) : Prop where
  dependencies : a.dependencies = b.dependencies
  residual : KeySet.ofConditions a.residual = KeySet.ofConditions b.residual

namespace Candidate

variable {a b c : Candidate}

theorem before_iff : a.before b = true ↔
    b.keys.size < a.keys.size ∨ a.keys.size = b.keys.size ∧ a.id.toNat ≤ b.id.toNat := by
  simp [before, RuleId.le]

theorem before_total (a b : Candidate) : a.before b = true ∨ b.before a = true := by
  rw [before_iff, before_iff]
  omega

theorem before_trans (a b c : Candidate) (hab : a.before b = true) (hbc : b.before c = true) :
    a.before c = true := by
  rw [before_iff] at *
  omega

/-- Only candidates with one identifier can come before one another. -/
theorem id_eq_of_before (hab : a.before b = true) (hba : b.before a = true) : a.id = b.id := by
  rw [before_iff] at hab hba
  exact RuleId.toNat_inj.mp (by omega)

end Candidate

theorem candidates_perm (distinct : (rules.map Rule.id).Nodup) (perm : rules.Perm rules')
    (same_excluded : ∀ id, id ∈ excluded ↔ id ∈ excluded') (wanted : KeySet) :
    (candidates wanted rules excluded).Perm (candidates wanted rules' excluded') := by
  have contains : ∀ id, excluded.contains id = excluded'.contains id := fun id => by
    simp [same_excluded id]
  rw [candidates, candidates]
  simp only [Rule.isReusable_of_perm distinct perm, contains]
  exact ((perm.filter _).map _).filter _

/-- Distinct candidates are sorted into one order, however they are listed. -/
theorem sorted_of_perm (distinct : (rules.map Rule.id).Nodup) (perm : rules.Perm rules')
    (same_excluded : ∀ id, id ∈ excluded ↔ id ∈ excluded') (wanted : KeySet) :
    sortBy Candidate.before (candidates wanted rules excluded) =
      sortBy Candidate.before (candidates wanted rules' excluded') := by
  have in_order := pairwise_sortBy Candidate.before_total Candidate.before_trans
  have candidates_perm := candidates_perm distinct perm same_excluded wanted
  refine List.Perm.eq_of_pairwise (fun a b ha hb hab hba => ?_) (in_order _) (in_order _)
    ((sortBy_perm _ _).trans (candidates_perm.trans (sortBy_perm _ _).symm))
  exact List.inj_on_of_nodup_map (nodup_candidates distinct wanted excluded) (mem_sortBy.mp ha)
    (candidates_perm.mem_iff.mpr (mem_sortBy.mp hb)) (Candidate.id_eq_of_before hab hba)

theorem selection_of_perm (distinct : (rules.map Rule.id).Nodup) (perm : rules.Perm rules')
    (same_excluded : ∀ id, id ∈ excluded ↔ id ∈ excluded')
    (same_keys : KeySet.ofConditions conditions = KeySet.ofConditions conditions') :
    selection conditions rules excluded = selection conditions' rules' excluded' := by
  rw [selection, selection, same_keys, sorted_of_perm distinct perm same_excluded]

/-- Neither the order of the rules nor that of the conditions matters for the cover that is found,
and conditions may be repeated. -/
theorem find?_of_perm (distinct : (rules.map Rule.id).Nodup) (perm : rules.Perm rules')
    (same_excluded : ∀ id, id ∈ excluded ↔ id ∈ excluded')
    (same_conditions : ∀ a, a ∈ conditions ↔ a ∈ conditions') :
    Option.Rel Agrees (find? conditions rules excluded) (find? conditions' rules' excluded') := by
  have same_keys : KeySet.ofConditions conditions = KeySet.ofConditions conditions' := by
    refine KeySet.ofConditions_eq fun k => ?_
    simp only [KeySet.mem_ofConditions, same_conditions]
  have same_selection : selection conditions rules excluded =
      selection conditions' rules' excluded' :=
    selection_of_perm distinct perm same_excluded same_keys
  have same_outcome : find? conditions rules excluded = none ↔
      find? conditions' rules' excluded' = none := by
    rw [find?_eq_none, find?_eq_none, ← selection_eq_nil, ← selection_eq_nil, same_selection]
  cases found : find? conditions rules excluded with
  | none =>
    rw [same_outcome.mp found]
    exact .none
  | some cover =>
    cases found' : find? conditions' rules' excluded' with
    | none =>
      rw [same_outcome.mpr found'] at found
      cases found
    | some cover' =>
      refine .some ⟨?_, KeySet.ofConditions_eq fun k => ?_⟩
      · rw [(find?_eq_some found).2.1, (find?_eq_some found').2.1, same_selection]
      · rw [mem_residual found, mem_residual found', same_selection, same_keys]

private def fromTier (tier : Nat) : Condition := .of "city_tier" "!=" (.int tier)

/-- Rules of one size, of which each has a condition in common with the next. -/
private def chainOfRules : List Rule :=
  [.plain 1 [fromTier 1, fromTier 2], .plain 2 [fromTier 2, fromTier 3],
    .plain 3 [fromTier 3, fromTier 4]]

/-- With the rules in the opposite order, and a condition asked for twice, the first and the last
rule are made use of all the same. -/
theorem find?_of_perm_chain :
    find? [fromTier 1, fromTier 2, fromTier 3, fromTier 4, fromTier 5] chainOfRules [] =
        some ⟨[.ofNat 1, .ofNat 3], [fromTier 5]⟩ ∧
      Option.Rel Agrees
        (find? [fromTier 1, fromTier 2, fromTier 3, fromTier 4, fromTier 5] chainOfRules [])
        (find? [fromTier 5, fromTier 4, fromTier 5, fromTier 3, fromTier 2, fromTier 1]
          chainOfRules.reverse []) := by
  refine ⟨by decide +kernel, ?_⟩
  exact find?_of_perm (by decide) (List.reverse_perm _).symm (fun _ => Iff.rfl) (by simp; tauto)

end Cover

end Cohort
