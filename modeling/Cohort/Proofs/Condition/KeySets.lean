import Cohort.Condition.Key

/-!
# Sets of keys

Keys are kept in ascending order, and the order tells all keys apart. So a set has the keys that
were put into it and no others, and sets with the same keys are equal.

## Main definitions

* `KeySet.unionAll` — the keys of any of some sets

## Main results

* `Condition.Key.eq_of_order_eq` — the order tells keys apart
* `KeySet.mem_ofConditions` — the keys of some conditions
* `KeySet.subset_ofConditions` — which conditions are part of others
* `KeySet.ofKeys_eq_iff` — sets are equal if they were made from the same keys
-/

namespace Cohort

namespace Condition.Key

variable {a b : Key}

theorem eq_of_comparePairs_eq {ps qs : List (String × String)} (h : comparePairs ps qs = .eq) :
    ps = qs := by
  induction ps generalizing qs with
  | nil =>
    cases qs with
    | nil => rfl
    | cons q qs => cases h
  | cons p ps ih =>
    cases qs with
    | nil => cases h
    | cons q qs =>
      rw [comparePairs, Ordering.then_eq_eq, Ordering.then_eq_eq,
        Std.LawfulEqOrd.compare_eq_iff_eq, Std.LawfulEqOrd.compare_eq_iff_eq] at h
      obtain ⟨names, texts, rest⟩ := h
      rw [ih rest, Prod.ext names texts]

/-- The pairs of a key show which members are present. -/
theorem pairs_injective (h : a.pairs = b.pairs) : a = b := by
  have member : ∀ k : Key, k.pairs.lookup "field" = k.field ∧
      k.pairs.lookup "operator" = k.operator ∧ k.pairs.lookup "value" = k.value ∧
      k.pairs.lookup "value2" = k.upper := by
    rintro ⟨field, operator, value, upper⟩
    cases field <;> cases operator <;> cases value <;> cases upper <;> exact ⟨rfl, rfl, rfl, rfl⟩
  obtain ⟨field, operator, value, upper⟩ := member a
  obtain ⟨field', operator', value', upper'⟩ := member b
  rw [h] at field operator value upper
  cases a
  cases b
  congr
  · exact field.symm.trans field'
  · exact operator.symm.trans operator'
  · exact value.symm.trans value'
  · exact upper.symm.trans upper'

/-- The order tells keys apart. -/
theorem eq_of_order_eq (h : a.order b = .eq) : a = b :=
  pairs_injective (eq_of_comparePairs_eq h)

/-- Pairs are compared by their names first and then by their texts. -/
theorem comparePairs_eq : comparePairs =
    List.compareLex (compareLex (compareOn Prod.fst) (compareOn Prod.snd)) := by
  funext ps qs
  induction ps generalizing qs with
  | nil => cases qs <;> rfl
  | cons p ps ih =>
    cases qs with
    | nil => rfl
    | cons q qs =>
      rw [comparePairs, ih, List.compareLex_cons_cons, compareLex, Ordering.then_assoc]
      rfl

instance : Std.TransCmp comparePairs := by
  rw [comparePairs_eq]
  infer_instance

theorem order_lt_trans {c : Key} (h : a.order b = .lt) (h' : b.order c = .lt) :
    a.order c = .lt :=
  @Std.TransCmp.lt_trans _ comparePairs _ _ _ _ h h'

theorem order_eq_gt : a.order b = .gt ↔ b.order a = .lt :=
  @Std.OrientedCmp.gt_iff_lt _ comparePairs _ _ _

end Condition.Key

namespace KeySet

open Condition (Key)

variable {k l : Key} {keys : List Key} {s t : KeySet} {cs ds : List Condition}

theorem mem_insertKey : k ∈ insertKey l keys ↔ k = l ∨ k ∈ keys := by
  induction keys with
  | nil => rw [insertKey, List.mem_singleton, or_iff_left List.not_mem_nil]
  | cons first rest ih =>
    rw [insertKey]
    split
    · exact List.mem_cons
    · next same =>
      -- The key is there already.
      rw [Key.eq_of_order_eq same, List.mem_cons]
      exact ⟨.inr, fun h => h.elim .inl id⟩
    · rw [List.mem_cons, ih, List.mem_cons]
      exact or_left_comm

theorem mem_ofKeys : k ∈ (ofKeys keys).keys ↔ k ∈ keys := by
  have added : ∀ s : KeySet, k ∈ (keys.foldl insert s).keys ↔ k ∈ s.keys ∨ k ∈ keys := by
    induction keys with
    | nil => simp
    | cons first rest ih =>
      intro s
      rw [List.foldl_cons, ih, insert, mem_insertKey, List.mem_cons, or_comm (a := k = first),
        or_assoc]
  rw [ofKeys, added]
  exact or_iff_right List.not_mem_nil

/-- The keys stand in ascending order. -/
def Ascending (keys : List Key) : Prop := keys.Pairwise fun k l => k.order l = .lt

theorem ascending_insertKey (h : Ascending keys) : Ascending (insertKey k keys) := by
  induction keys with
  | nil => exact List.pairwise_singleton _ _
  | cons first rest ih =>
    obtain ⟨below, rest_ascending⟩ := List.pairwise_cons.mp h
    rw [insertKey]
    split
    · next before =>
      refine List.pairwise_cons.mpr ⟨fun l hl => ?_, h⟩
      rcases List.mem_cons.mp hl with rfl | hl
      · exact before
      · exact Key.order_lt_trans before (below l hl)
    · exact h
    · next after =>
      refine List.pairwise_cons.mpr ⟨fun l hl => ?_, ih rest_ascending⟩
      rcases mem_insertKey.mp hl with rfl | hl
      · exact Key.order_eq_gt.mp after
      · exact below l hl

theorem ascending_ofKeys (keys : List Key) : Ascending (ofKeys keys).keys := by
  have added : ∀ s : KeySet, Ascending s.keys → Ascending (keys.foldl insert s).keys := by
    induction keys with
    | nil => exact fun _ h => h
    | cons first rest ih => exact fun s h => ih (s.insert first) (ascending_insertKey h)
  exact added empty List.Pairwise.nil

/-- Keys in ascending order are determined by which keys there are. -/
theorem Ascending.eq_of_mem_iff {keys' : List Key} (h : Ascending keys) (h' : Ascending keys')
    (same : ∀ k, k ∈ keys ↔ k ∈ keys') : keys = keys' := by
  have one_way : ∀ k l : Key, k.order l = .lt → l.order k = .lt → False := by
    intro k l hkl hlk
    rw [Key.order_eq_gt.mpr hkl] at hlk
    cases hlk
  have nodup : ∀ {ks : List Key}, Ascending ks → ks.Nodup := by
    intro ks ascending
    refine ascending.imp ?_
    rintro k _ hkl rfl
    exact one_way k k hkl hkl
  refine List.Perm.eq_of_pairwise (fun k l _ _ hkl hlk => (one_way k l hkl hlk).elim) h h' ?_
  exact (List.perm_ext_iff_of_nodup (nodup h) (nodup h')).mpr same

/-- Sets are equal just if they were made from the same keys. -/
theorem ofKeys_eq_iff {keys' : List Key} :
    ofKeys keys = ofKeys keys' ↔ ∀ k, k ∈ keys ↔ k ∈ keys' := by
  constructor
  · intro same k
    rw [← mem_ofKeys, same, mem_ofKeys]
  · intro same
    have members : ∀ k, k ∈ (ofKeys keys).keys ↔ k ∈ (ofKeys keys').keys := fun k => by
      rw [mem_ofKeys, mem_ofKeys, same]
    exact congrArg KeySet.mk
      ((ascending_ofKeys keys).eq_of_mem_iff (ascending_ofKeys keys') members)

theorem mem_union : k ∈ (s.union t).keys ↔ k ∈ s.keys ∨ k ∈ t.keys := by
  rw [union, mem_ofKeys, List.mem_append]

/-- The keys of any of some sets. -/
def unionAll (sets : List KeySet) : KeySet := sets.foldr union empty

theorem mem_unionAll {sets : List KeySet} :
    k ∈ (unionAll sets).keys ↔ ∃ s ∈ sets, k ∈ s.keys := by
  induction sets with
  | nil => simp [unionAll, empty]
  | cons s rest ih =>
    simp only [List.mem_cons, exists_eq_or_imp]
    exact mem_union.trans (or_congr_right ih)

theorem mem_diff : k ∈ (s.diff t).keys ↔ k ∈ s.keys ∧ k ∉ t.keys := by
  simp [diff, contains]

/-- The keys of some conditions. -/
theorem mem_ofConditions : k ∈ (ofConditions cs).keys ↔ ∃ c ∈ cs, c.key = k := by
  rw [ofConditions, mem_ofKeys, List.mem_map]

/-- Conditions are part of others just if each of them has the key of one of the others. -/
theorem subset_ofConditions : (ofConditions cs).subset (ofConditions ds) = true ↔
    ∀ c ∈ cs, ∃ d ∈ ds, d.key = c.key := by
  rw [subset, List.all_eq_true]
  constructor
  · intro h c hc
    have there := h c.key (mem_ofConditions.mpr ⟨c, hc, rfl⟩)
    rw [contains, List.contains_iff_mem] at there
    exact mem_ofConditions.mp there
  · intro h k hk
    obtain ⟨c, hc, rfl⟩ := mem_ofConditions.mp hk
    rw [contains, List.contains_iff_mem]
    exact mem_ofConditions.mpr (h c hc)

theorem mem_of_subset (h : s.subset t = true) (hk : k ∈ s.keys) : k ∈ t.keys := by
  simpa [contains] using List.all_eq_true.mp h k hk

end KeySet

end Cohort
