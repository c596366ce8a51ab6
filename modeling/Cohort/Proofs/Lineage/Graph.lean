import Cohort.Proofs.Lineage.Collect

/-!
# Lineage graphs

The lineage of a rule has a node for everything that can be reached from it along
dependencies, and an edge for every dependency of these rules. A rule is among the
dependents of another one if and only if it has that one in its lineage.

## Main results

* `LineageEdge.pairwise_insertAscending` — edges are kept in ascending order, each once
* `Lineage.mem_edgesInto` — the edges of a graph are the dependencies of its nodes
* `lineage_exact` — a lineage is what can be reached, in ascending order
* `mem_dependents_iff_mem_lineage` — following dependencies in either direction comes to the same
-/

namespace Cohort

variable {entries : List Entry} {ids : List RuleId} {id p : RuleId}

/-! ## Edges in order -/

namespace LineageEdge

variable {a b c e : LineageEdge} {edges : List LineageEdge}

theorem before_iff :
    a.before b = true ↔ a.parent < b.parent ∨ a.parent = b.parent ∧ a.child < b.child := by
  simp [before]

theorem before_trans (hab : a.before b = true) (hbc : b.before c = true) : a.before c = true := by
  simp only [before_iff, RuleId.lt_iff, ← RuleId.toNat_inj] at *
  omega

/-- Of two different edges one comes before the other. -/
theorem before_total (different : a ≠ b) (h : ¬ a.before b = true) : b.before a = true := by
  have apart : a.parent = b.parent → a.child ≠ b.child := by
    intro parent child
    cases a
    cases b
    exact different (by rw [LineageEdge.mk.injEq]; exact ⟨parent, child⟩)
  simp only [before_iff, RuleId.lt_iff, Ne, ← RuleId.toNat_inj] at h apart ⊢
  omega

theorem mem_insertAscending : a ∈ insertAscending e edges ↔ a = e ∨ a ∈ edges := by
  induction edges with
  | nil => simp [insertAscending]
  | cons x rest ih =>
    unfold insertAscending
    split
    · simp
    · split
      · next same => simp [same]
      · rw [List.mem_cons, ih, List.mem_cons]
        exact or_left_comm

theorem pairwise_insertAscending (h : edges.Pairwise fun a b => a.before b = true) :
    (insertAscending e edges).Pairwise fun a b => a.before b = true := by
  induction edges with
  | nil => simp [insertAscending]
  | cons x rest ih =>
    obtain ⟨below, rest_ascending⟩ := List.pairwise_cons.mp h
    unfold insertAscending
    split
    · next first =>
      refine List.pairwise_cons.mpr ⟨fun y hy => ?_, h⟩
      rcases List.mem_cons.mp hy with rfl | hy
      · exact first
      · exact before_trans first (below y hy)
    · next later =>
      split
      · exact h
      · next different =>
        refine List.pairwise_cons.mpr ⟨fun y hy => ?_, ih rest_ascending⟩
        rcases mem_insertAscending.mp hy with rfl | hy
        · exact before_total different later
        · exact below y hy

theorem mem_foldl_insertAscending {sorted : List LineageEdge} :
    a ∈ edges.foldl (fun sorted e => insertAscending e sorted) sorted ↔
      a ∈ sorted ∨ a ∈ edges := by
  induction edges generalizing sorted with
  | nil => simp
  | cons x rest ih =>
    rw [List.foldl_cons, ih, mem_insertAscending, List.mem_cons, or_comm (a := a = x), or_assoc]

theorem pairwise_foldl_insertAscending {sorted : List LineageEdge}
    (h : sorted.Pairwise fun a b => a.before b = true) :
    (edges.foldl (fun sorted e => insertAscending e sorted) sorted).Pairwise
      fun a b => a.before b = true := by
  induction edges generalizing sorted with
  | nil => exact h
  | cons x rest ih => exact ih (pairwise_insertAscending h)

end LineageEdge

/-! ## The graph of a rule -/

namespace Lineage

variable {g : Lineage} {e : LineageEdge}

/-- The edges into some segments are the dependencies of these. -/
theorem mem_edgesInto :
    e ∈ edgesInto entries ids ↔ e.child ∈ ids ∧ e.parent ∈ Entry.parentsOf entries e.child := by
  rw [edgesInto, LineageEdge.mem_foldl_insertAscending]
  simp only [List.not_mem_nil, false_or, List.mem_flatMap, List.mem_map]
  constructor
  · rintro ⟨id, hid, p, hp, rfl⟩
    exact ⟨hid, hp⟩
  · rintro ⟨hid, hp⟩
    exact ⟨e.child, hid, e.parent, hp, rfl⟩

theorem pairwise_edgesInto : (edgesInto entries ids).Pairwise fun a b => a.before b = true :=
  LineageEdge.pairwise_foldl_insertAscending .nil

theorem mem_parentsOf : p ∈ g.parentsOf id ↔ ⟨p, id⟩ ∈ g.edges := by
  simp only [parentsOf, List.mem_map, List.mem_filter, decide_eq_true_eq]
  constructor
  · rintro ⟨e, ⟨he, rfl⟩, rfl⟩
    exact he
  · exact fun he => ⟨⟨p, id⟩, ⟨he, rfl⟩, rfl⟩

/-- Among the edges into one segment the order is that of the parents. -/
theorem pairwise_parentsOf (h : g.edges.Pairwise fun a b => a.before b = true) :
    (g.parentsOf id).Pairwise (· < ·) := by
  refine List.pairwise_map.mpr ((List.Pairwise.and_mem.mp (h.filter _)).imp ?_)
  rintro a b ⟨ha, hb, before⟩
  have child_a : a.child = id := by simpa using (List.mem_filter.mp ha).2
  have child_b : b.child = id := by simpa using (List.mem_filter.mp hb).2
  rcases LineageEdge.before_iff.mp before with lower | ⟨-, lower⟩
  · exact lower
  · rw [child_a, child_b] at lower
    exact absurd lower (Nat.lt_irrefl _)

/-- A node is missing from the catalogue if there is no row with its identifier. -/
theorem node_kind_eq_missing :
    (node entries id).kind = .missing ↔ Entry.lookup? entries id = none := by
  unfold node
  split
  · next h => simp [h]
  · next e h =>
    simp only [h, reduceCtorEq, iff_false]
    split <;> simp

theorem node_ruleId (entries : List Entry) (id : RuleId) : (node entries id).ruleId = id := by
  unfold node
  split <;> rfl

theorem map_ruleId_nodes (entries : List Entry) (ids : List RuleId) :
    (ids.map (node entries)).map LineageNode.ruleId = ids := by
  have same : LineageNode.ruleId ∘ node entries = fun id => id := funext (node_ruleId entries)
  rw [List.map_map, same, List.map_id']

/-- The graph of a listed rule, in terms of what contributes to it. -/
theorem of_listed (listed : id ∈ entries.map Entry.id) :
    of entries id = .ok ⟨id, (contributors entries id).map (node entries),
      edgesInto entries (contributors entries id)⟩ := by
  rw [of, if_pos]
  simpa using listed

end Lineage

/-- The lineage of a listed rule has the identifiers that can be reached from it for its nodes, in
ascending order, those without a row as missing. Its edges are the dependencies of the rows among
them, in ascending order, so that the parents of a node are its dependencies. -/
theorem lineage_exact (distinct : (entries.map Entry.id).Nodup) {root : RuleId}
    (listed : root ∈ entries.map Entry.id) :
    ∃ g, Lineage.of entries root = .ok g ∧ g.root = root ∧
      (g.nodes.map LineageNode.ruleId).Pairwise (· < ·) ∧
      (∀ id, id ∈ g.nodes.map LineageNode.ruleId ↔
        Relation.ReflTransGen (DependsOn entries) root id) ∧
      (∀ n ∈ g.nodes, n.kind = .missing ↔ n.ruleId ∉ entries.map Entry.id) ∧
      (g.edges.Pairwise fun a b => a.before b = true) ∧
      (∀ p c, ⟨p, c⟩ ∈ g.edges ↔ Relation.ReflTransGen (DependsOn entries) root c ∧
        ∃ e ∈ entries, e.id = c ∧ p ∈ e.parents) ∧
      ∀ id ∈ g.nodes.map LineageNode.ruleId, (g.parentsOf id).Pairwise (· < ·) ∧
        ∀ p, p ∈ g.parentsOf id ↔ ∃ e ∈ entries, e.id = id ∧ p ∈ e.parents := by
  have edge : ∀ p c, ⟨p, c⟩ ∈ Lineage.edgesInto entries (Lineage.contributors entries root) ↔
      Relation.ReflTransGen (DependsOn entries) root c ∧ DependsOn entries c p := fun p c => by
    rw [Lineage.mem_edgesInto, mem_contributors distinct, mem_parentsOf distinct]
  refine ⟨_, Lineage.of_listed listed, rfl, ?_, fun id => ?_, fun n hn => ?_,
    Lineage.pairwise_edgesInto, edge, fun id hid => ⟨?_, fun p => ?_⟩⟩
  · rw [Lineage.map_ruleId_nodes]
    exact RuleId.pairwise_ascending _
  · rw [Lineage.map_ruleId_nodes]
    exact mem_contributors distinct
  · obtain ⟨id, -, rfl⟩ := List.mem_map.mp hn
    rw [Lineage.node_kind_eq_missing, Lineage.node_ruleId, lookup?_eq_none]
    simp
  · exact Lineage.pairwise_parentsOf Lineage.pairwise_edgesInto
  · rw [Lineage.map_ruleId_nodes, mem_contributors distinct] at hid
    rw [Lineage.mem_parentsOf, edge]
    exact and_iff_right hid

/-- Two rules that depend on each other, one of them also on a rule without a row. -/
private def circular : List Entry := [.combining 2 [9, 1, 9], .combining 5 [1], .combining 1 [2]]

theorem lineage_exact_circular :
    (circular.map Entry.id).Nodup ∧ RuleId.ofNat 1 ∈ circular.map Entry.id ∧
      ∃ g, Lineage.of circular (.ofNat 1) = .ok g ∧
        RuleId.ofNat 9 ∈ g.nodes.map LineageNode.ruleId ∧
        (∀ n ∈ g.nodes, n.ruleId = .ofNat 9 → n.kind = .missing) ∧
        ⟨.ofNat 9, .ofNat 2⟩ ∈ g.edges ∧ RuleId.ofNat 9 ∈ g.parentsOf (.ofNat 2) := by
  have distinct : (circular.map Entry.id).Nodup := by decide
  have listed : RuleId.ofNat 1 ∈ circular.map Entry.id := by decide
  have to_second : DependsOn circular (.ofNat 1) (.ofNat 2) :=
    .of_mem (e := .combining 1 [2]) (by decide) (by decide)
  have to_missing : DependsOn circular (.ofNat 2) (.ofNat 9) :=
    .of_mem (e := .combining 2 [9, 1, 9]) (by decide) (by decide)
  obtain ⟨g, found, -, -, nodes, missing, -, edges, parents⟩ := lineage_exact distinct listed
  refine ⟨distinct, listed, g, found, (nodes _).mpr (.tail (.single to_second) to_missing),
    fun n hn ninth => (missing n hn).mpr ?_, (edges _ _).mpr ⟨.single to_second, to_missing⟩,
    ((parents _ ((nodes _).mpr (.single to_second))).2 _).mpr to_missing⟩
  rw [ninth]
  decide

/-- A rule is never among its own dependents. Another rule is among them if and only if it has this
one in its lineage. -/
theorem mem_dependents_iff_mem_lineage (distinct : (entries.map Entry.id).Nodup) (a : RuleId) :
    a ∉ dependents entries a ∧
      ∀ b ∈ entries.map Entry.id, b ≠ a → ∃ g, Lineage.of entries b = .ok g ∧
        (b ∈ dependents entries a ↔ a ∈ g.nodes.map LineageNode.ruleId) := by
  refine ⟨fun itself => (mem_dependents.mp itself).1 rfl, fun b listed other => ?_⟩
  refine ⟨_, Lineage.of_listed listed, ?_⟩
  rw [Lineage.map_ruleId_nodes, mem_contributors distinct, mem_dependents,
    Relation.reflTransGen_iff_eq_or_transGen]
  constructor
  · exact fun h => .inr h.2
  · rintro (same | further)
    · exact absurd same.symm other
    · exact ⟨other, further⟩

theorem mem_dependents_iff_mem_lineage_circular :
    (circular.map Entry.id).Nodup ∧ RuleId.ofNat 5 ∈ circular.map Entry.id ∧
      RuleId.ofNat 5 ∈ dependents circular (.ofNat 9) ∧
      RuleId.ofNat 9 ∉ dependents circular (.ofNat 9) ∧
      ∃ g, Lineage.of circular (.ofNat 5) = .ok g ∧
        RuleId.ofNat 9 ∈ g.nodes.map LineageNode.ruleId := by
  have distinct : (circular.map Entry.id).Nodup := by decide
  have listed : RuleId.ofNat 5 ∈ circular.map Entry.id := by decide
  have depends : RuleId.ofNat 5 ∈ dependents circular (.ofNat 9) := by decide +kernel
  obtain ⟨not_itself, dual⟩ := mem_dependents_iff_mem_lineage distinct (.ofNat 9)
  obtain ⟨g, found, same⟩ := dual (.ofNat 5) listed (by decide)
  exact ⟨distinct, listed, depends, not_itself, g, found, same.mp depends⟩

end Cohort
