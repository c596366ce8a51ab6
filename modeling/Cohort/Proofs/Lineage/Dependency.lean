import Mathlib.Data.Fintype.EquivFin
import Mathlib.Logic.Relation
import Mathlib.Order.WellFounded
import Cohort.Lineage

/-!
# The dependency graph

The rows of a catalogue form a graph: a rule depends on the rules whose segments its own
segment combines. Where no rule depends on itself, however indirectly, segments can be
computed and compared by recursion along the dependencies.

## Main definitions

* `DependsOn` — a rule combines the segment of another
* `Acyclic` — no rule depends on itself through any number of steps
* `Entry.combining` — rows to illustrate the graph with

## Main results

* `Acyclic.wellFounded` — dependencies can be followed only finitely often
* `Acyclic.of_not_reaches` — new dependencies of a rule close no cycle if none leads back to it
* `Acyclic.of_agree_off` — new dependencies of a rule that no rule depends on close no cycle
-/

namespace Cohort

/-- A row of `a` has `b` among the rules that it combines. -/
def DependsOn (entries : List Entry) (a b : RuleId) : Prop :=
  ∃ e ∈ entries, e.id = a ∧ b ∈ e.parents

/-- No rule depends on itself, directly or through other rules. -/
def Acyclic (entries : List Entry) : Prop :=
  ∀ id, ¬ Relation.TransGen (DependsOn entries) id id

/-- A row that combines others, with nothing else in it that matters. -/
def Entry.combining (id : Nat) (parents : List Nat) : Entry where
  rule :=
    { id := .ofNat id, name := Nat.repr id, description := none, conditions := [], declared := [],
      dependencies := some (parents.map .ofNat), operation := some .union, active := true,
      schedule := .daily, nextRunAt := none, lastRunAt := none, createdAt := ⟨0, 0⟩,
      updatedAt := ⟨0, 0⟩ }
  segment :=
    { ruleId := .ofNat id, name := Nat.repr id, table := Nat.repr id,
      source := .composite (parents.map .ofNat) .union none, rowCount := 0,
      lastRefreshedAt := none, dataAsOf := none, createdAt := ⟨0, 0⟩ }
  version := 0

/-- The place of an identifier among all of them. -/
private def RuleId.index (id : RuleId) : Fin RuleId.count := ⟨id.toNat, id.toNat_lt_count⟩

private theorem RuleId.index_injective : Function.Injective RuleId.index :=
  fun _ _ h => RuleId.toNat_inj.mp (Fin.mk.inj h)

instance : Finite RuleId := Finite.of_injective RuleId.index RuleId.index_injective

/-- There are no more different identifiers in a list than there are at all. -/
theorem RuleId.length_le_count {ids : List RuleId} (different : ids.Nodup) :
    ids.length ≤ RuleId.count := by
  have bound := (different.map RuleId.index_injective).length_le_card
  rwa [List.length_map, Fintype.card_fin] at bound

/-- An ascending list of identifiers is determined by its members. -/
theorem RuleId.eq_of_pairwise_lt {ids ids' : List RuleId} (h : ids.Pairwise (· < ·))
    (h' : ids'.Pairwise (· < ·)) (same : ∀ id, id ∈ ids ↔ id ∈ ids') : ids = ids' := by
  have perm : ids.Perm ids' :=
    (List.perm_ext_iff_of_nodup (nodup_of_pairwise_lt h) (nodup_of_pairwise_lt h')).mpr same
  exact perm.eq_of_pairwise (fun _ _ _ _ less greater => absurd greater (Nat.lt_asymm less)) h h'

variable {entries entries' : List Entry} {a b : RuleId}

theorem DependsOn.of_mem {e : Entry} (he : e ∈ entries) (hb : b ∈ e.parents) :
    DependsOn entries e.id b :=
  ⟨e, he, rfl, hb⟩

/-- A relation without cycles can be followed only finitely often. -/
theorem RuleId.wellFounded_of_no_cycle {r : RuleId → RuleId → Prop}
    (h : ∀ id, ¬ Relation.TransGen r id id) : WellFounded fun b a => r a b := by
  have trans_wf : WellFounded (Relation.TransGen fun b a => r a b) := by
    have : Std.Irrefl (Relation.TransGen fun b a => r a b) :=
      ⟨fun a ha => h a (Relation.transGen_swap.mp ha)⟩
    exact Finite.wellFounded_of_trans_of_irrefl _
  have single : Subrelation (fun b a => r a b) (Relation.TransGen fun b a => r a b) :=
    fun hba => .single hba
  exact single.wf trans_wf

/-- Dependencies of an acyclic catalogue can be followed only finitely often. -/
theorem Acyclic.wellFounded (h : Acyclic entries) :
    WellFounded fun b a => DependsOn entries a b :=
  RuleId.wellFounded_of_no_cycle h

/-- What leads to a rule leads there also where the rule has other dependencies of its own. -/
theorem reaches_of_agree_off (x : RuleId)
    (agree : ∀ a b, a ≠ x → DependsOn entries a b → DependsOn entries' a b)
    (h : Relation.ReflTransGen (DependsOn entries) a x) :
    Relation.ReflTransGen (DependsOn entries') a x := by
  induction h using Relation.ReflTransGen.head_induction_on with
  | refl => exact .refl
  | @head b c hbc _ ih =>
    by_cases hb : b = x
    · rw [hb]
    · exact ih.head (agree b c hb hbc)

/-- A chain of dependencies was there before, or it leads through the rule with new ones. -/
private theorem transGen_of_agree_off (x : RuleId)
    (agree : ∀ a b, a ≠ x → DependsOn entries' a b → DependsOn entries a b)
    (h : Relation.TransGen (DependsOn entries') a b) :
    Relation.TransGen (DependsOn entries) a b ∨
      Relation.ReflTransGen (DependsOn entries') a x ∧
        Relation.TransGen (DependsOn entries') x b := by
  induction h with
  | single hab =>
    by_cases ha : a = x
    · subst ha
      exact .inr ⟨.refl, .single hab⟩
    · exact .inl (.single (agree _ _ ha hab))
  | @tail c b hac hcb ih =>
    rcases ih with before | ⟨to_x, from_x⟩
    · by_cases hc : c = x
      · subst hc
        exact .inr ⟨hac.to_reflTransGen, .single hcb⟩
      · exact .inl (before.tail (agree _ _ hc hcb))
    · exact .inr ⟨to_x, from_x.tail hcb⟩

/-- New dependencies of a rule close no cycle if none of them leads back to it. -/
theorem Acyclic.of_not_reaches (h : Acyclic entries) (x : RuleId)
    (agree : ∀ a b, a ≠ x → DependsOn entries' a b → DependsOn entries a b)
    (apart : ∀ p, DependsOn entries' x p → ¬ Relation.ReflTransGen (DependsOn entries') p x) :
    Acyclic entries' := by
  intro a cycle
  rcases transGen_of_agree_off x agree cycle with before | ⟨to_x, from_x⟩
  · exact h a before
  · obtain ⟨p, hp, from_p⟩ := Relation.TransGen.head'_iff.mp from_x
    exact apart p hp (from_p.trans to_x)

/-- If nobody depends on a rule, its own dependencies are on no cycle. -/
theorem Acyclic.of_agree_off (h : Acyclic entries) (x : RuleId)
    (agree : ∀ a b, a ≠ x → DependsOn entries' a b → DependsOn entries a b)
    (source : ∀ a, ¬ DependsOn entries' a x) : Acyclic entries' := by
  refine h.of_not_reaches x agree fun p hp to_x => ?_
  rcases Relation.ReflTransGen.cases_tail to_x with rfl | ⟨c, -, hc⟩
  · exact source x hp
  · exact source c hc

/-- A catalogue with fewer dependencies stays acyclic. -/
theorem Acyclic.mono (h : Acyclic entries)
    (fewer : ∀ a b, DependsOn entries' a b → DependsOn entries a b) : Acyclic entries' :=
  fun a cycle => h a (Relation.TransGen.mono fewer a a cycle)

end Cohort
