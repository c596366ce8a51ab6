import Cohort.Proofs.Lineage.Order

/-!
# The execution order is canonical

Every place goes to the lowest rule that can have it. So the order comes before all other
orders of its rules in which rules come after what they depend on, and it does not matter
how the rules are listed.

## Main results

* `ExecutionOrder.LeastFirst.prefix_or_lex` — any other order stops early or comes later
* `ExecutionOrder.LeastFirst.unique` — there is one order in which the lowest rules come first
* `executionOrder_canonical` — the execution order is the lowest one, however rules are listed
-/

namespace Cohort

variable {entries entries' : List Entry} {order other placed : List RuleId} {id : RuleId}

namespace ExecutionOrder

/-- Against the order that has the lowest rules first, another one stops early, or it has a higher
rule where they differ for the first time. -/
theorem LeastFirst.prefix_or_lex (h : LeastFirst entries order) (h' : Arranged entries other) :
    other <+: order ∨ List.Lex (· < ·) order other := by
  -- Both orders go on after rules that they have in common.
  have general : ∀ (rest rest' before : List RuleId), LeastFirst entries (before ++ rest) →
      Arranged entries (before ++ rest') → rest' <+: rest ∨ List.Lex (· < ·) rest rest' := by
    intro rest
    induction rest with
    | nil =>
      intro rest' before h h'
      cases rest' with
      | nil => exact .inl (List.prefix_refl _)
      | cons y rest' =>
        have available := h' before y (by simp)
        rw [List.append_nil] at h
        exact absurd available (h.complete y)
    | cons x rest ih =>
      intro rest' before h h'
      cases rest' with
      | nil => exact .inl List.nil_prefix
      | cons y rest' =>
        have lowest : x ≤ y := (h.least before x (by simp)).2 (h' before y (by simp))
        by_cases same : x = y
        · subst same
          rcases ih rest' (before ++ [x]) (by simpa using h) (by simpa using h') with stops | later
          · exact .inl (List.prefix_cons_inj x |>.mpr stops)
          · exact .inr (.cons later)
        · refine .inr (.rel ?_)
          exact Nat.lt_of_le_of_ne lowest fun h => same (RuleId.toNat_inj.mp h)
  exact general order other [] h h'

/-- An order that leaves no available rule is not the beginning of a longer one. -/
theorem eq_of_prefix_of_complete (complete : ∀ id, ¬ Available entries other id)
    (h : Arranged entries order) (start : other <+: order) : other = order := by
  obtain ⟨rest, rfl⟩ := start
  cases rest with
  | nil => rw [List.append_nil]
  | cons x rest => exact absurd (h other x (by simp)) (complete x)

/-- There is only one order in which the lowest rules come first. -/
theorem LeastFirst.unique (h : LeastFirst entries order) (h' : LeastFirst entries other) :
    order = other := by
  rcases h.prefix_or_lex h'.arranged with stops | later
  · exact (eq_of_prefix_of_complete h'.complete h.arranged stops).symm
  · rcases h'.prefix_or_lex h.arranged with stops | earlier
    · exact eq_of_prefix_of_complete h.complete h'.arranged stops
    · exact absurd earlier (List.lex_asymm (fun h h' => Nat.lt_asymm h h') later)

/-- Which rules are available does not depend on the order of the entries. -/
theorem available_congr (perm : entries.Perm entries') :
    Available entries placed id ↔ Available entries' placed id := by
  have needed : ∀ p, p ∈ needs entries id ↔ p ∈ needs entries' id := fun p => by
    simp only [mem_needs, DependsOn, perm.mem_iff]
  simp only [Available, (perm.map Entry.id).mem_iff, needed]

theorem LeastFirst.of_perm (h : LeastFirst entries order) (perm : entries.Perm entries') :
    LeastFirst entries' order where
  least before id turn := by
    simpa only [available_congr perm] using h.least before id turn
  complete id available := h.complete id ((available_congr perm).mpr available)

end ExecutionOrder

open ExecutionOrder

/-- At each place of the execution order stands the lowest rule that is available there, and in
the end none is. So it comes first of all orders of its rules in which every rule comes after the
listed rules that it depends on, and it stays the same however the entries are listed. -/
theorem executionOrder_canonical (entries : List Entry) :
    (∀ before id, before ++ [id] <+: (executionOrder entries).ordered →
        IsLeast {x | Available entries before x} id) ∧
      (∀ id, ¬ Available entries (executionOrder entries).ordered id) ∧
      (∀ order, Arranged entries order → order <+: (executionOrder entries).ordered ∨
        List.Lex (· < ·) (executionOrder entries).ordered order) ∧
      (∀ order, Arranged entries order → order.Perm (executionOrder entries).ordered →
        order = (executionOrder entries).ordered ∨
          List.Lex (· < ·) (executionOrder entries).ordered order) ∧
      ∀ entries', entries'.Perm entries → executionOrder entries' = executionOrder entries := by
  have leastFirst := executionOrder_leastFirst entries
  refine ⟨leastFirst.least, leastFirst.complete, fun order h => leastFirst.prefix_or_lex h,
    fun order h perm => ?_, fun entries' perm => ?_⟩
  · exact (leastFirst.prefix_or_lex h).imp_left fun start => start.eq_of_length perm.length_eq
  · have same_ordered : (executionOrder entries').ordered = (executionOrder entries).ordered :=
      ((executionOrder_leastFirst entries').of_perm perm).unique leastFirst
    have same_ids : Entry.ids entries' = Entry.ids entries :=
      RuleId.eq_of_pairwise_lt (RuleId.pairwise_ascending _) (RuleId.pairwise_ascending _)
        fun id => by simp only [Entry.mem_ids, perm.mem_iff]
    have same_cyclic : (executionOrder entries').cyclic = (executionOrder entries).cyclic := by
      rw [cyclic_eq, cyclic_eq, same_ordered, same_ids]
    exact congrArg₂ ExecutionOrder.mk same_ordered same_cyclic

/-- Two rules that need nothing, one that needs the first of them, and one that needs itself. -/
private def branching : List Entry :=
  [.combining 3 [1], .combining 4 [4], .combining 2 [], .combining 1 []]

theorem executionOrder_canonical_branching :
    (executionOrder branching).ordered = [.ofNat 1, .ofNat 2, .ofNat 3] ∧
      IsLeast {x | Available branching [.ofNat 1] x} (.ofNat 2) ∧
      List.Lex (· < ·) (executionOrder branching).ordered [.ofNat 2, .ofNat 1, .ofNat 3] ∧
      executionOrder branching.reverse = executionOrder branching := by
  have ordered : (executionOrder branching).ordered = [.ofNat 1, .ofNat 2, .ofNat 3] := by
    decide +kernel
  have second : Arranged branching ([] ++ [.ofNat 2]) :=
    arranged_concat.mpr ⟨arranged_nil, by decide⟩
  have first_later : Arranged branching ([.ofNat 2] ++ [.ofNat 1]) :=
    arranged_concat.mpr ⟨second, by decide⟩
  have other : Arranged branching ([.ofNat 2, .ofNat 1] ++ [.ofNat 3]) :=
    arranged_concat.mpr ⟨first_later, by decide⟩
  obtain ⟨least, -, -, lowest, same⟩ := executionOrder_canonical branching
  refine ⟨ordered, ?_, ?_, same _ (List.reverse_perm _)⟩
  · exact least [.ofNat 1] (.ofNat 2) (by rw [ordered]; decide)
  · refine (lowest _ other (by rw [ordered]; decide)).resolve_left ?_
    rw [ordered]
    decide

end Cohort
