import Mathlib.Data.List.Nodup
import Cohort.Cover
import Cohort.Proofs.Condition.KeySets

/-!
# Greedy covers

A cover is found by going through the candidates once, the largest first. A candidate is taken
if all of its keys are still wanted, and its keys are wanted no longer. So what was taken stays
apart from what comes later, and what was passed over meets what had been taken before it.

## Main definitions

* `Rule.plain` — rules to illustrate covers with
* `Rule.Covers` — a rule stands for a proper part of some conditions and may be used for it
* `Cover.taken` — the candidates that are taken
* `Condition.firsts` — some conditions without those whose keys came before
* `Cover.selection` — the candidates that a cover of some conditions consists of

## Main results

* `Cover.find?_eq` — a cover in terms of its selection
* `Cover.pairwise_taken` — the candidates that are taken have no keys in common
* `Cover.meets_of_not_taken` — a candidate that is passed over meets those that are taken
* `Cover.firstOfEach_eq` — what is left are first conditions, in their order
* `Cover.find?_keys` — a cover divides the keys of the conditions
-/

namespace Cohort

variable {conditions : List Condition} {rules : List Rule} {excluded : List RuleId}

namespace Rule

/-- An active rule that tests all of its conditions itself. -/
def plain (id : Nat) (conditions : List Condition) : Rule where
  id := .ofNat id
  name := "Rule"
  description := none
  conditions
  declared := conditions
  dependencies := none
  operation := none
  active := true
  schedule := .daily
  nextRunAt := none
  lastRunAt := none
  createdAt := ⟨0, 0⟩
  updatedAt := ⟨0, 0⟩

/-- The keys of all conditions that a rule stands for. -/
def declaredKeys (r : Rule) : KeySet := KeySet.ofConditions r.declared

/-- A rule as a candidate. -/
def candidate (r : Rule) : Cover.Candidate := ⟨r.id, r.declaredKeys⟩

/-- The rule stands for a proper part of some conditions, and it may be used for it. -/
structure Covers (rules : List Rule) (excluded : List RuleId) (conditions : List Condition)
    (r : Rule) : Prop where
  active : r.active = true
  allowed : r.id ∉ excluded
  reusable : r.isReusable rules = true
  nonempty : r.declaredKeys.isEmpty = false
  part : r.declaredKeys.subset (KeySet.ofConditions conditions) = true
  smaller : r.declaredKeys.size < (KeySet.ofConditions conditions).size

end Rule

/-- Some conditions without those whose keys came before. -/
def Condition.firsts (conditions : List Condition) : List Condition :=
  (conditions.zipIdx.filter fun p => !((conditions.take p.2).map key).contains p.1.key).map
    Prod.fst

namespace Cover

open Condition (Key)

variable {usable : List Candidate} {wanted : KeySet} {c x y : Candidate} {k : Key}

/-! ## The choice -/

/-- The candidates that are taken, each as its turn comes. -/
def taken : List Candidate → KeySet → List Candidate
  | [], _ => []
  | c :: rest, wanted =>
    if !wanted.isEmpty && c.keys.subset wanted then c :: taken rest (wanted.diff c.keys)
    else taken rest wanted

theorem choose_fst (usable : List Candidate) (wanted : KeySet) :
    (choose usable wanted).1 = (taken usable wanted).map Candidate.id := by
  induction usable generalizing wanted with
  | nil => rfl
  | cons c rest ih =>
    rw [choose, taken]
    split
    · exact congrArg (c.id :: ·) (ih _)
    · exact ih _

/-- The keys that are left are those of no candidate that is taken. -/
theorem mem_choose_snd :
    k ∈ (choose usable wanted).2.keys ↔
      k ∈ wanted.keys ∧ ∀ x ∈ taken usable wanted, k ∉ x.keys.keys := by
  induction usable generalizing wanted with
  | nil => simp [choose, taken]
  | cons c rest ih =>
    rw [choose, taken]
    split
    · simp only [ih, KeySet.mem_diff, List.forall_mem_cons, and_assoc]
    · exact ih

theorem taken_sublist (usable : List Candidate) (wanted : KeySet) :
    (taken usable wanted).Sublist usable := by
  induction usable generalizing wanted with
  | nil => exact .slnil
  | cons c rest ih =>
    rw [taken]
    split
    · exact (ih _).cons_cons c
    · exact (ih _).cons c

theorem wanted_of_mem_taken (hx : x ∈ taken usable wanted) (hk : k ∈ x.keys.keys) :
    k ∈ wanted.keys := by
  induction usable generalizing wanted with
  | nil => cases hx
  | cons c rest ih =>
    rw [taken] at hx
    split at hx
    · next fits =>
      rw [Bool.and_eq_true] at fits
      rcases List.mem_cons.mp hx with rfl | hx
      · exact KeySet.mem_of_subset fits.2 hk
      · exact (KeySet.mem_diff.mp (ih hx)).1
    · exact ih hx

/-- What is taken later keeps apart from what was taken before. -/
theorem pairwise_taken (usable : List Candidate) (wanted : KeySet) :
    (taken usable wanted).Pairwise fun x y => ∀ k ∈ x.keys.keys, k ∉ y.keys.keys := by
  induction usable generalizing wanted with
  | nil => exact .nil
  | cons c rest ih =>
    rw [taken]
    split
    · refine List.pairwise_cons.mpr ⟨fun y hy k hc hk => ?_, ih _⟩
      exact (KeySet.mem_diff.mp (wanted_of_mem_taken hy hk)).2 hc
    · exact ih _

/-- A candidate that is passed over has a key that is not wanted, or one of a candidate that is
taken. It did not fit when its turn came, and the wanted keys only become fewer. -/
theorem meets_of_not_taken (hx : x ∈ usable) (nonempty : x.keys.isEmpty = false)
    (passed_over : x ∉ taken usable wanted) :
    ∃ k ∈ x.keys.keys, k ∉ wanted.keys ∨ ∃ y ∈ taken usable wanted, k ∈ y.keys.keys := by
  induction usable generalizing wanted with
  | nil => cases hx
  | cons c rest ih =>
    rw [taken] at passed_over ⊢
    split at passed_over
    · next fits =>
      rw [if_pos fits]
      obtain ⟨ne, not_later⟩ := not_or.mp (mt List.mem_cons.mpr passed_over)
      obtain ⟨k, hk, missing | ⟨y, hy, hky⟩⟩ :=
        ih ((List.mem_cons.mp hx).resolve_left ne) not_later
      · refine ⟨k, hk, ?_⟩
        rw [KeySet.mem_diff, not_and_or, not_not] at missing
        exact missing.imp_right fun hkc => ⟨c, List.mem_cons_self, hkc⟩
      · exact ⟨k, hk, .inr ⟨y, List.mem_cons_of_mem _ hy, hky⟩⟩
    · next misfit =>
      rw [if_neg misfit]
      rcases List.mem_cons.mp hx with rfl | hx
      -- There was nothing wanted any more, or a key of the candidate was not.
      · rw [Bool.and_eq_true, not_and_or] at misfit
        rcases misfit with nothing | misfit
        · have no_keys : wanted.keys = [] := by simpa [KeySet.isEmpty] using nothing
          obtain ⟨k, hk⟩ : ∃ k, k ∈ x.keys.keys := by
            refine List.exists_mem_of_ne_nil _ fun none => ?_
            rw [KeySet.isEmpty, none] at nonempty
            cases nonempty
          exact ⟨k, hk, .inl (by rw [no_keys]; exact List.not_mem_nil)⟩
        · obtain ⟨k, hk, missing⟩ : ∃ k ∈ x.keys.keys, k ∉ wanted.keys := by
            simpa [KeySet.subset, KeySet.contains] using misfit
          exact ⟨k, hk, .inl missing⟩
      · exact ih hx passed_over

/-! ## What is left -/

/-- What is left are the first conditions of the wanted keys that were not seen before. -/
theorem firstOfEach_eq (wanted : KeySet) (seen : List Key) (conditions : List Condition) :
    firstOfEach wanted seen conditions =
      (Condition.firsts conditions).filter fun c =>
        wanted.contains c.key && !seen.contains c.key := by
  rw [Condition.firsts, List.filter_map, List.filter_filter]
  induction conditions generalizing seen with
  | nil => rfl
  | cons first rest ih =>
    rw [firstOfEach, List.zipIdx_cons', List.filter_cons, List.filter_map]
    split
    · next fits =>
      rw [if_pos (by simpa using fits), ih, List.map_cons, List.map_map]
      refine congrArg (first :: ·) (congrArg _ (List.filter_congr fun p _ => ?_))
      simp only [Function.comp_apply, Prod.map_fst, Prod.map_snd, id_eq, List.take_succ_cons,
        List.map_cons, List.contains_cons]
      grind
    · next misfit =>
      rw [if_neg (by simpa using misfit), ih, List.map_map]
      refine congrArg _ (List.filter_congr fun p _ => ?_)
      simp only [Function.comp_apply, Prod.map_fst, Prod.map_snd, id_eq, List.take_succ_cons,
        List.map_cons, List.contains_cons]
      grind

theorem mem_of_mem_firsts {a : Condition} (h : a ∈ Condition.firsts conditions) :
    a ∈ conditions := by
  obtain ⟨p, hp, rfl⟩ := List.mem_map.mp h
  exact List.fst_mem_of_mem_zipIdx (List.mem_filter.mp hp).1

/-- Every key has a first condition. -/
theorem exists_mem_firsts {a : Condition} (h : a ∈ conditions) :
    ∃ b ∈ Condition.firsts conditions, b.key = a.key := by
  let i := conditions.findIdx fun b => b.key == a.key
  have bound : i < conditions.length := List.findIdx_lt_length_of_exists ⟨a, h, beq_self_eq_true _⟩
  have same : conditions[i].key = a.key := by
    simpa using List.findIdx_getElem (p := fun b : Condition => b.key == a.key) (w := bound)
  refine ⟨conditions[i], List.mem_map.mpr ⟨(conditions[i], i), List.mem_filter.mpr ⟨?_, ?_⟩, rfl⟩,
    same⟩
  · exact List.mem_zipIdx_iff_getElem?.mpr (List.getElem?_eq_getElem bound)
  · have not_before : ∀ b ∈ conditions.take i, b.key ≠ a.key := by
      intro b hb
      obtain ⟨j, hj, rfl⟩ := List.mem_iff_getElem.mp hb
      rw [List.getElem_take]
      simpa using List.not_of_lt_findIdx (p := fun b : Condition => b.key == a.key)
        (Nat.lt_of_lt_of_le hj (List.length_take_le _ _))
    simpa [same, -List.map_take] using not_before

/-! ## Covers -/

theorem mem_candidates : c ∈ candidates (.ofConditions conditions) rules excluded ↔
    ∃ r ∈ rules, r.Covers rules excluded conditions ∧ c = r.candidate := by
  simp only [candidates, List.mem_filter, List.mem_map, Bool.and_eq_true, Bool.not_eq_true',
    List.contains_eq_mem, decide_eq_false_iff_not, decide_eq_true_eq]
  constructor
  · rintro ⟨⟨r, ⟨hr, ⟨active, allowed⟩, reusable⟩, rfl⟩, ⟨nonempty, smaller⟩, part⟩
    exact ⟨r, hr, ⟨active, allowed, reusable, nonempty, part, smaller⟩, rfl⟩
  · rintro ⟨r, hr, covers, rfl⟩
    exact ⟨⟨r, ⟨hr, ⟨covers.active, covers.allowed⟩, covers.reusable⟩, rfl⟩,
      ⟨covers.nonempty, covers.smaller⟩, covers.part⟩

/-- Distinct rules are distinct candidates. -/
theorem nodup_candidates (distinct : (rules.map Rule.id).Nodup) (wanted : KeySet)
    (excluded : List RuleId) :
    ((candidates wanted rules excluded).map Candidate.id).Nodup := by
  have ids : ((candidates wanted rules excluded).map Candidate.id).Sublist
      (rules.map Rule.id) := by
    refine (List.filter_sublist.map _).trans ?_
    rw [List.map_map]
    exact List.filter_sublist.map _
  exact ids.nodup distinct

/-- The candidates that a cover of some conditions consists of. -/
def selection (conditions : List Condition) (rules : List Rule) (excluded : List RuleId) :
    List Candidate :=
  taken (sortBy Candidate.before (candidates (.ofConditions conditions) rules excluded))
    (.ofConditions conditions)

theorem mem_candidates_of_mem_selection (hx : x ∈ selection conditions rules excluded) :
    x ∈ candidates (.ofConditions conditions) rules excluded :=
  mem_sortBy.mp ((taken_sublist _ _).subset hx)

/-- A rule that is not chosen although it covers a part shares a key with the chosen ones. -/
theorem meets_selection {r : Rule} (hr : r ∈ rules) (covers : r.Covers rules excluded conditions)
    (passed_over : r.candidate ∉ selection conditions rules excluded) :
    ∃ k ∈ r.declaredKeys.keys, ∃ x ∈ selection conditions rules excluded, k ∈ x.keys.keys := by
  have listed := mem_candidates.mpr ⟨r, hr, covers, rfl⟩
  obtain ⟨k, hk, missing | met⟩ :=
    meets_of_not_taken (mem_sortBy.mpr listed) covers.nonempty passed_over
  · exact absurd (KeySet.mem_of_subset covers.part hk) missing
  · exact ⟨k, hk, met⟩

/-- Nothing is chosen just if there is no candidate: one that fits would be taken. -/
theorem selection_eq_nil :
    selection conditions rules excluded = [] ↔
      candidates (.ofConditions conditions) rules excluded = [] := by
  constructor
  · intro nothing
    refine List.eq_nil_iff_forall_not_mem.mpr fun x hx => ?_
    obtain ⟨r, hr, covers, rfl⟩ := mem_candidates.mp hx
    obtain ⟨k, hk, y, hy, -⟩ := meets_selection hr covers (by rw [nothing]; exact List.not_mem_nil)
    rw [nothing] at hy
    cases hy
  · intro nothing
    rw [selection, nothing]
    rfl

/-- The conditions that are left are the first ones whose keys are not those of the selection. -/
theorem firstOfEach_choose (conditions : List Condition) (rules : List Rule)
    (excluded : List RuleId) :
    firstOfEach (choose (sortBy Candidate.before
        (candidates (.ofConditions conditions) rules excluded)) (.ofConditions conditions)).2
          [] conditions =
      (Condition.firsts conditions).filter fun c =>
        (selection conditions rules excluded).all fun x => !x.keys.contains c.key := by
  rw [firstOfEach_eq]
  refine List.filter_congr fun a ha => Bool.eq_iff_iff.mpr ?_
  have wanted : a.key ∈ (KeySet.ofConditions conditions).keys :=
    KeySet.mem_ofConditions.mpr ⟨a, mem_of_mem_firsts ha, rfl⟩
  simp [KeySet.contains, mem_choose_snd, wanted, selection]

/-- A cover names its selection, and leaves the first conditions of all other keys. -/
theorem find?_eq (conditions : List Condition) (rules : List Rule) (excluded : List RuleId) :
    find? conditions rules excluded =
      if selection conditions rules excluded = [] then none
      else some
        { dependencies := (selection conditions rules excluded).map Candidate.id
          residual := (Condition.firsts conditions).filter fun c =>
            (selection conditions rules excluded).all fun x => !x.keys.contains c.key } := by
  rw [← firstOfEach_choose, find?]
  dsimp only
  split
  -- There is nothing to cover, so no set of keys is smaller.
  · next nothing =>
    rw [if_pos (selection_eq_nil.mpr ?_)]
    refine List.eq_nil_iff_forall_not_mem.mpr fun x hx => ?_
    obtain ⟨r, -, covers, -⟩ := mem_candidates.mp hx
    have smaller := covers.smaller
    rw [KeySet.size, KeySet.size, List.isEmpty_iff.mp nothing] at smaller
    cases smaller
  · have ids := choose_fst (sortBy Candidate.before
      (candidates (.ofConditions conditions) rules excluded)) (.ofConditions conditions)
    change _ = (selection conditions rules excluded).map Candidate.id at ids
    rw [← ids]
    split
    · next chosen =>
      rw [chosen] at ids
      rw [if_pos (List.map_eq_nil_iff.mp ids.symm)]
    · next id rest left chosen =>
      rw [chosen] at ids ⊢
      rw [if_neg]
      rintro nothing
      rw [nothing] at ids
      cases ids

theorem find?_eq_none : find? conditions rules excluded = none ↔
    candidates (.ofConditions conditions) rules excluded = [] := by
  rw [find?_eq, ← selection_eq_nil]
  split <;> simp_all

theorem find?_eq_some {cover : Cover} (h : find? conditions rules excluded = some cover) :
    selection conditions rules excluded ≠ [] ∧
      cover.dependencies = (selection conditions rules excluded).map Candidate.id ∧
      cover.residual = (Condition.firsts conditions).filter fun c =>
        (selection conditions rules excluded).all fun x => !x.keys.contains c.key := by
  rw [find?_eq] at h
  split at h
  · cases h
  · next chosen =>
    obtain rfl := Option.some.inj h
    exact ⟨chosen, rfl, rfl⟩

/-- What a cover makes use of is an active rule that may be used and narrows to its conditions. -/
theorem mem_dependencies {cover : Cover} (h : find? conditions rules excluded = some cover)
    {id : RuleId} (hid : id ∈ cover.dependencies) :
    ∃ r ∈ rules, r.id = id ∧ r.active = true ∧ r.id ∉ excluded ∧ r.isReusable rules = true := by
  rw [(find?_eq_some h).2.1] at hid
  obtain ⟨x, hx, rfl⟩ := List.mem_map.mp hid
  obtain ⟨r, hr, covers, rfl⟩ := mem_candidates.mp (mem_candidates_of_mem_selection hx)
  exact ⟨r, hr, rfl, covers.active, covers.allowed, covers.reusable⟩

/-- The candidates of a cover are rules that cover a part of the conditions. -/
theorem exists_rules_of_selection (conditions : List Condition) (rules : List Rule)
    (excluded : List RuleId) :
    ∃ chosen : List Rule, (∀ r ∈ chosen, r ∈ rules ∧ r.Covers rules excluded conditions) ∧
      selection conditions rules excluded = chosen.map Rule.candidate := by
  have of_rule : ∀ x ∈ selection conditions rules excluded,
      ∃ r, (r ∈ rules ∧ r.Covers rules excluded conditions) ∧ x = r.candidate := by
    intro x hx
    obtain ⟨r, hr, covers, same⟩ := mem_candidates.mp (mem_candidates_of_mem_selection hx)
    exact ⟨r, ⟨hr, covers⟩, same⟩
  generalize selection conditions rules excluded = xs at of_rule
  induction xs with
  | nil => exact ⟨[], by simp, rfl⟩
  | cons x rest ih =>
    obtain ⟨⟨r, hr, rfl⟩, rest_of_rule⟩ := List.forall_mem_cons.mp of_rule
    obtain ⟨rs, hrs, rfl⟩ := ih rest_of_rule
    exact ⟨r :: rs, List.forall_mem_cons.mpr ⟨hr, hrs⟩, rfl⟩

/-- The keys of the conditions that a cover leaves. -/
theorem mem_residual {cover : Cover} (h : find? conditions rules excluded = some cover) :
    k ∈ (KeySet.ofConditions cover.residual).keys ↔
      k ∈ (KeySet.ofConditions conditions).keys ∧
        ∀ x ∈ selection conditions rules excluded, k ∉ x.keys.keys := by
  rw [(find?_eq_some h).2.2, KeySet.mem_ofConditions, KeySet.mem_ofConditions]
  simp only [List.mem_filter, List.all_eq_true, KeySet.contains, List.contains_eq_mem,
    Bool.not_eq_true', decide_eq_false_iff_not]
  constructor
  · rintro ⟨a, ⟨ha, apart⟩, rfl⟩
    exact ⟨⟨a, mem_of_mem_firsts ha, rfl⟩, apart⟩
  · rintro ⟨⟨a, ha, rfl⟩, apart⟩
    obtain ⟨b, hb, same⟩ := exists_mem_firsts ha
    exact ⟨b, ⟨hb, same ▸ apart⟩, same⟩

/-- A cover divides the keys of some conditions among the rules that it makes use of and the
conditions that are left. -/
theorem find?_keys {cover : Cover} (h : find? conditions rules excluded = some cover) :
    ∃ chosen : List Rule, (∀ r ∈ chosen, r ∈ rules) ∧ cover.dependencies = chosen.map Rule.id ∧
      ∀ k, k ∈ (KeySet.ofConditions conditions).keys ↔
        (∃ r ∈ chosen, k ∈ (KeySet.ofConditions r.declared).keys) ∨
          k ∈ (KeySet.ofConditions cover.residual).keys := by
  obtain ⟨chosen, covers, same⟩ := exists_rules_of_selection conditions rules excluded
  refine ⟨chosen, fun r hr => (covers r hr).1, ?_, fun k => ?_⟩
  · rw [(find?_eq_some h).2.1, same, List.map_map]
    rfl
  · have wanted : ∀ r ∈ chosen, k ∈ r.declaredKeys.keys →
        k ∈ (KeySet.ofConditions conditions).keys :=
      fun r hr hk => KeySet.mem_of_subset (covers r hr).2.part hk
    rw [mem_residual h, same, List.forall_mem_map]
    change _ ↔ (∃ r ∈ chosen, k ∈ r.declaredKeys.keys) ∨ _ ∧ ∀ r ∈ chosen, k ∉ r.declaredKeys.keys
    grind

end Cover

end Cohort
