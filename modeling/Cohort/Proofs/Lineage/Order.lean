import Mathlib.Data.List.Induction
import Mathlib.Data.List.Infix
import Mathlib.Data.List.Nodup
import Mathlib.Order.Bounds.Basic
import Cohort.Lineage.Order
import Cohort.Proofs.Lineage.Collect

/-!
# The execution order

Every rule has its place after the rules that it needs, and a place goes to a rule as soon
as it is the lowest one that can have it. What has no place in the end are the rules from
which a cycle can be reached: as long as there are others, one of them needs nothing that
is without a place.

## Main definitions

* `ExecutionOrder.Available` — a rule can have the next place
* `ExecutionOrder.Arranged` — every rule is available at its turn
* `ExecutionOrder.LeastFirst` — every rule is the lowest one at its turn, and none is left
* `ExecutionOrder.InOrder` — each rule comes after what it needs

## Main results

* `executionOrder_leastFirst` — the countdown gives places to the lowest rules first
* `executionOrder_perm` — every rule is placed or on a cycle, once
* `executionOrder_inOrder` — the order respects all dependencies
* `mem_cyclic` — rules have no place if they lead to a cycle, and only then
* `executionOrder_cyclic` — an acyclic catalogue is ordered completely
-/

namespace Cohort

variable {entries : List Entry} {order placed : List RuleId} {id p : RuleId}

namespace ExecutionOrder

/-- The dependencies of an identifier within the listed ones. -/
def needs (entries : List Entry) (id : RuleId) : List RuleId :=
  ((entries.filter fun e => e.id = id).flatMap Entry.parents).filter
    fun p => entries.any fun e => e.id = p

theorem mem_needs :
    p ∈ needs entries id ↔ DependsOn entries id p ∧ ∃ e ∈ entries, e.id = p := by
  simp only [needs, List.mem_filter, List.mem_flatMap, decide_eq_true_eq, List.any_eq_true,
    DependsOn]
  constructor
  · rintro ⟨⟨e, ⟨he, hid⟩, hp⟩, hlisted⟩
    exact ⟨⟨e, he, hid, hp⟩, hlisted⟩
  · rintro ⟨⟨e, he, hid, hp⟩, hlisted⟩
    exact ⟨⟨e, ⟨he, hid⟩, hp⟩, hlisted⟩

/-- A listed rule without a place, where all listed rules that it depends on have one. -/
def Available (entries : List Entry) (placed : List RuleId) (id : RuleId) : Prop :=
  id ∈ entries.map Entry.id ∧ id ∉ placed ∧ ∀ p ∈ needs entries id, p ∈ placed

instance : Decidable (Available entries placed id) :=
  inferInstanceAs (Decidable (_ ∧ _ ∧ _))

theorem available_iff :
    Countdown.Available (Entry.ids entries) (Entry.links entries) placed id ↔
      Available entries placed id := by
  have listed : id ∈ Entry.ids entries ↔ id ∈ entries.map Entry.id := RuleId.mem_ascending
  rw [Countdown.Available, Available, listed]
  refine and_congr_right fun _ => and_congr_right fun _ => ⟨fun h p hp => ?_, fun h l hl hid => ?_⟩
  · obtain ⟨⟨e, he, hid, hp⟩, listed_p⟩ := mem_needs.mp hp
    exact h ⟨p, id⟩ (Entry.mem_links.mpr ⟨e, he, hid, hp, Entry.mem_ids.mpr listed_p⟩) rfl
  · obtain ⟨e, he, same, hp, listed_p⟩ := Entry.mem_links.mp hl
    exact h l.parent (mem_needs.mpr ⟨⟨e, he, same.trans hid, hp⟩, Entry.mem_ids.mp listed_p⟩)

/-! ## Orders of rules -/

/-- At its turn every rule is available. -/
def Arranged (entries : List Entry) (order : List RuleId) : Prop :=
  ∀ before id, before ++ [id] <+: order → Available entries before id

/-- At its turn every rule is the lowest one that is available, and in the end none is. -/
structure LeastFirst (entries : List Entry) (order : List RuleId) : Prop where
  least : ∀ before id, before ++ [id] <+: order → IsLeast {x | Available entries before x} id
  complete : ∀ id, ¬ Available entries order id

theorem LeastFirst.arranged (h : LeastFirst entries order) : Arranged entries order :=
  fun before id turn => (h.least before id turn).1

theorem arranged_nil : Arranged entries [] := fun before id turn => by simp at turn

/-- The turns of a longer order are the turns before and the last one. -/
private theorem forall_turn_concat {P : List RuleId → RuleId → Prop} :
    (∀ before x, before ++ [x] <+: order ++ [id] → P before x) ↔
      (∀ before x, before ++ [x] <+: order → P before x) ∧ P order id := by
  constructor
  · exact fun h => ⟨fun before x turn => h before x (turn.trans (List.prefix_append _ _)),
      h order id (List.prefix_refl _)⟩
  · rintro ⟨h, last⟩ before x turn
    rcases List.prefix_concat_iff.mp turn with here | earlier
    · obtain ⟨rfl, same⟩ := List.append_inj' here rfl
      exact List.singleton_inj.mp same ▸ last
    · exact h before x earlier

theorem arranged_concat :
    Arranged entries (order ++ [id]) ↔ Arranged entries order ∧ Available entries order id :=
  forall_turn_concat

namespace Arranged

theorem mem_ids (h : Arranged entries order) (hid : id ∈ order) : id ∈ entries.map Entry.id := by
  obtain ⟨before, after, rfl⟩ := List.append_of_mem hid
  exact (h before id (by simp)).1

theorem nodup (h : Arranged entries order) : order.Nodup := by
  induction order using List.reverseRecOn with
  | nil => exact List.nodup_nil
  | append_singleton order id ih =>
    obtain ⟨before, -, fresh, -⟩ := arranged_concat.mp h
    simpa using List.nodup_append.mpr ⟨ih before, List.nodup_singleton id, by grind⟩

/-- What a rule needs comes before it. -/
theorem idxOf_lt (h : Arranged entries order) (hid : id ∈ order) (hp : p ∈ needs entries id) :
    p ∈ order ∧ order.idxOf p < order.idxOf id := by
  obtain ⟨before, after, rfl⟩ := List.append_of_mem hid
  obtain ⟨-, fresh, needs_placed⟩ := h before id (by simp)
  have earlier := needs_placed p hp
  refine ⟨List.mem_append_left _ earlier, ?_⟩
  rw [List.idxOf_append_of_mem earlier, List.idxOf_append_of_notMem fresh]
  exact Nat.lt_add_right _ (List.idxOf_lt_length_of_mem earlier)

end Arranged

/-- After some identifiers that are done, the others come in an order in which each one finds done
what it needs. -/
def InOrder (entries : List Entry) : List RuleId → List RuleId → Prop
  | _, [] => True
  | done, id :: rest => (∀ p ∈ needs entries id, p ∈ done) ∧ InOrder entries (done ++ [id]) rest

theorem Arranged.inOrder :
    ∀ {done rest : List RuleId}, Arranged entries (done ++ rest) → InOrder entries done rest := by
  intro done rest
  induction rest generalizing done with
  | nil => exact fun _ => trivial
  | cons id rest ih =>
    intro h
    exact ⟨(h done id (by simp)).2.2, ih (by simpa using h)⟩

end ExecutionOrder

open ExecutionOrder

/-- The countdown gives places to the lowest rules first, until none is available. -/
theorem executionOrder_leastFirst (entries : List Entry) :
    LeastFirst entries (executionOrder entries).ordered := by
  obtain ⟨c, counted, complete, least⟩ := Entry.exists_countdown? entries
    (P := fun placed => ∀ before id, before ++ [id] <+: placed →
      IsLeast {x | Available entries before x} id)
    (fun placed id available lowest least => forall_turn_concat.mpr ⟨least,
      available_iff.mp available, fun y hy => lowest y (available_iff.mpr hy)⟩)
    (fun before id turn => by simp at turn)
  have ordered : (executionOrder entries).ordered = c.placed := by
    simp [executionOrder, counted]
  rw [ordered]
  exact ⟨least, fun id available => complete id (available_iff.mpr available)⟩

theorem cyclic_eq (entries : List Entry) : (executionOrder entries).cyclic =
    (Entry.ids entries).filter fun id => id ∉ (executionOrder entries).ordered := rfl

theorem mem_cyclic_iff_not_mem_ordered :
    id ∈ (executionOrder entries).cyclic ↔
      id ∈ entries.map Entry.id ∧ id ∉ (executionOrder entries).ordered := by
  simp [cyclic_eq, Entry.ids]

/-- Every listed rule has its place or is left over, exactly once. -/
theorem executionOrder_perm (entries : List Entry) :
    ((executionOrder entries).ordered ++ (executionOrder entries).cyclic).Perm
      (RuleId.ascending (entries.map Entry.id)) := by
  have arranged := (executionOrder_leastFirst entries).arranged
  have cyclic_nodup : (executionOrder entries).cyclic.Nodup :=
    (RuleId.nodup_ascending _).filter _
  refine (List.perm_ext_iff_of_nodup (List.nodup_append.mpr ⟨arranged.nodup, cyclic_nodup,
    fun a ha b hb same => ?_⟩) (RuleId.nodup_ascending _)).mpr fun id => ?_
  · exact (mem_cyclic_iff_not_mem_ordered.mp hb).2 (same ▸ ha)
  · rw [List.mem_append, mem_cyclic_iff_not_mem_ordered, RuleId.mem_ascending]
    by_cases h : id ∈ (executionOrder entries).ordered
    · simpa [h] using arranged.mem_ids h
    · simp [h]

/-- Every rule comes after the listed rules that it depends on. -/
theorem executionOrder_inOrder (entries : List Entry) :
    ExecutionOrder.InOrder entries [] (executionOrder entries).ordered :=
  (executionOrder_leastFirst entries).arranged.inOrder

/-! ## Rules without a place -/

/-- What a rule with a place leads to within the listed rules has a place as well. -/
theorem mem_ordered_of_leads {a b : RuleId} (ha : a ∈ (executionOrder entries).ordered)
    (h : Relation.ReflTransGen (Leads (needs entries)) a b) :
    b ∈ (executionOrder entries).ordered := by
  induction h with
  | refl => exact ha
  | tail _ step ih => exact ((executionOrder_leastFirst entries).arranged.idxOf_lt ih step).1

/-- Rules with a place are on no cycle, since their places would have to descend around it. -/
theorem idxOf_lt_of_leads {a b : RuleId} (ha : a ∈ (executionOrder entries).ordered)
    (h : Relation.TransGen (Leads (needs entries)) a b) :
    (executionOrder entries).ordered.idxOf b < (executionOrder entries).ordered.idxOf a := by
  have arranged := (executionOrder_leastFirst entries).arranged
  induction h with
  | single step => exact (arranged.idxOf_lt ha step).2
  | tail to_b step ih =>
    have hb := mem_ordered_of_leads ha to_b.to_reflTransGen
    exact (arranged.idxOf_lt hb step).2.trans ih

/-- The rules without a place are those from which dependencies within the list lead to a cycle. -/
theorem mem_cyclic :
    id ∈ (executionOrder entries).cyclic ↔ id ∈ entries.map Entry.id ∧
      ∃ c, Relation.ReflTransGen (Leads (needs entries)) id c ∧
        Relation.TransGen (Leads (needs entries)) c c := by
  rw [mem_cyclic_iff_not_mem_ordered]
  refine and_congr_right fun listed => ⟨fun without_place => ?_, ?_⟩
  · by_contra no_cycle
    -- Along what can be reached there is no cycle, so some rule without a place is the last one.
    have wf := RuleId.wellFounded_of_no_cycle
      (r := fun a b => Relation.ReflTransGen (Leads (needs entries)) id a ∧ b ∈ needs entries a)
      fun c cycle => no_cycle ⟨c, by
        obtain ⟨b, step, -⟩ := Relation.TransGen.head'_iff.mp cycle
        exact step.1, Relation.TransGen.mono (fun _ _ step => step.2) c c cycle⟩
    obtain ⟨m, ⟨reached, listed_m, unplaced⟩, last⟩ := wf.has_min
      {x | Relation.ReflTransGen (Leads (needs entries)) id x ∧ x ∈ entries.map Entry.id ∧
        x ∉ (executionOrder entries).ordered} ⟨id, .refl, listed, without_place⟩
    refine (executionOrder_leastFirst entries).complete m ⟨listed_m, unplaced, fun p hp => ?_⟩
    by_contra unplaced_p
    obtain ⟨-, e, he, hid⟩ := mem_needs.mp hp
    exact last p ⟨reached.tail hp, List.mem_map.mpr ⟨e, he, hid⟩, unplaced_p⟩ ⟨reached, hp⟩
  · rintro ⟨c, reached, cycle⟩ placed
    exact Nat.lt_irrefl _ (idxOf_lt_of_leads (mem_ordered_of_leads placed reached) cycle)

/-- Nothing is left over of an acyclic catalogue. -/
theorem executionOrder_cyclic (acyclic : Acyclic entries) :
    (executionOrder entries).cyclic = [] := by
  refine List.eq_nil_iff_forall_not_mem.mpr fun id hid => ?_
  obtain ⟨-, c, -, cycle⟩ := mem_cyclic.mp hid
  exact acyclic c (Relation.TransGen.mono (fun _ _ step => (mem_needs.mp step).1) c c cycle)

/-- The order sorts what can be sorted. The countdown ends, and no count goes below zero. Every
listed rule is either ordered or left over, once. An ordered rule comes after the listed rules that
it depends on. A rule is left over if dependencies within the list lead from it to a cycle, and only
then. -/
theorem executionOrder_sorts (entries : List Entry) :
    (Entry.countdown? entries).map Countdown.placed = some (executionOrder entries).ordered ∧
      (∀ id, ((executionOrder entries).ordered ++ (executionOrder entries).cyclic).count id =
        if id ∈ entries.map Entry.id then 1 else 0) ∧
      (∀ e ∈ entries, ∀ p ∈ e.parents, p ∈ entries.map Entry.id →
        e.id ∈ (executionOrder entries).ordered → p ∈ (executionOrder entries).ordered ∧
          (executionOrder entries).ordered.idxOf p < (executionOrder entries).ordered.idxOf e.id) ∧
      ∀ id, id ∈ (executionOrder entries).cyclic ↔ id ∈ entries.map Entry.id ∧
        ∃ c, Relation.ReflTransGen (Leads (needs entries)) id c ∧
          Relation.TransGen (Leads (needs entries)) c c := by
  have arranged := (executionOrder_leastFirst entries).arranged
  refine ⟨Option.map_eq_some_iff.mpr ⟨_, (Option.some_get _).symm, rfl⟩, fun id => ?_,
    fun e he p hp listed placed => ?_, fun id => mem_cyclic⟩
  · rw [(executionOrder_perm entries).count_eq, (RuleId.nodup_ascending _).count]
    simp only [RuleId.mem_ascending]
  · obtain ⟨e', he', hid⟩ := List.mem_map.mp listed
    exact arranged.idxOf_lt placed (mem_needs.mpr ⟨.of_mem he hp, e', he', hid⟩)

/-- Two rows of a rule, one of which repeats a dependency, a rule that depends on itself, one that
depends on that, and a dependency without a row. -/
private def tangled : List Entry :=
  [.combining 4 [2, 3], .combining 2 [1, 9], .combining 3 [3], .combining 2 [1, 1], .combining 1 []]

theorem executionOrder_sorts_tangled :
    executionOrder tangled = ⟨[.ofNat 1, .ofNat 2], [.ofNat 3, .ofNat 4]⟩ ∧
      (executionOrder tangled).ordered.idxOf (.ofNat 1) <
        (executionOrder tangled).ordered.idxOf (.ofNat 2) ∧
      ∃ c, Relation.ReflTransGen (Leads (needs tangled)) (.ofNat 4) c ∧
        Relation.TransGen (Leads (needs tangled)) c c := by
  have computed : executionOrder tangled = ⟨[.ofNat 1, .ofNat 2], [.ofNat 3, .ofNat 4]⟩ := by
    decide +kernel
  obtain ⟨-, -, parents_first, left_over⟩ := executionOrder_sorts tangled
  refine ⟨computed, ?_, ?_⟩
  · exact (parents_first (.combining 2 [1, 1]) (by decide) (.ofNat 1) (by decide) (by decide)
      (by rw [computed]; decide)).2
  · exact ((left_over (.ofNat 4)).mp (by rw [computed]; decide)).2

/-- Where no rule is listed twice, the places and what is left over are all that is listed. -/
theorem executionOrder_perm_ids (distinct : (entries.map Entry.id).Nodup) :
    ((executionOrder entries).ordered ++ (executionOrder entries).cyclic).Perm
      (entries.map Entry.id) := by
  refine (executionOrder_perm entries).trans ?_
  refine (List.perm_ext_iff_of_nodup (RuleId.nodup_ascending _) distinct).mpr fun id => ?_
  exact RuleId.mem_ascending

/-- Where no rule depends on itself, the order is an arrangement of all rules. -/
theorem ordered_perm (acyclic : Acyclic entries) (distinct : (entries.map Entry.id).Nodup) :
    (executionOrder entries).ordered.Perm (entries.map Entry.id) := by
  have perm := executionOrder_perm_ids distinct
  rwa [executionOrder_cyclic acyclic, List.append_nil] at perm

/-- Looking up the rows of listed identifiers finds one for each. -/
theorem map_id_filterMap_find? {entries : List Entry} {ids : List RuleId}
    (listed : ∀ id ∈ ids, ∃ e ∈ entries, e.id = id) :
    (ids.filterMap fun id => entries.find? fun e => e.id = id).map Entry.id = ids := by
  induction ids with
  | nil => rfl
  | cons id rest ih =>
    obtain ⟨listed_id, listed_rest⟩ := List.forall_mem_cons.mp listed
    cases found : entries.find? fun e => e.id = id with
    | none =>
      obtain ⟨e, he, hid⟩ := listed_id
      exact absurd hid (by simpa using List.find?_eq_none.mp found e he)
    | some e =>
      have hid : e.id = id := by simpa using List.find?_some found
      rw [List.filterMap_cons, found, List.map_cons, ih listed_rest, hid]

/-- The entries of the order, one for each place. -/
theorem map_id_executionOrder_entries (entries : List Entry) :
    ((executionOrder entries).ordered.filterMap fun id =>
      entries.find? fun e => e.id = id).map Entry.id = (executionOrder entries).ordered :=
  map_id_filterMap_find? fun _ hid =>
    List.mem_map.mp ((executionOrder_leastFirst entries).arranged.mem_ids hid)

/-- Every listed rule has one entry in the order at most. -/
theorem nodup_executionOrder_entries (entries : List Entry) :
    (((executionOrder entries).ordered.filterMap fun id =>
      entries.find? fun e => e.id = id).map Entry.id).Nodup := by
  rw [map_id_executionOrder_entries]
  exact (executionOrder_leastFirst entries).arranged.nodup

theorem mem_of_mem_executionOrder_entries {entries : List Entry} {e : Entry}
    (he : e ∈ (executionOrder entries).ordered.filterMap fun id =>
      entries.find? fun e => e.id = id) : e ∈ entries := by
  obtain ⟨id, -, found⟩ := List.mem_filterMap.mp he
  exact List.mem_of_find?_eq_some found

end Cohort
