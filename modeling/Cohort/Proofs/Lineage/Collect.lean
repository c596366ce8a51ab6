import Mathlib.Algebra.Order.BigOperators.Group.List
import Mathlib.Algebra.Order.Ring.Nat
import Cohort.Proofs.Lineage.Dependency

/-!
# Following dependencies

`collect` looks at a bounded number of identifiers. Each identifier is taken up once, and
every dependency is looked at once, so that the number of dependencies is bound enough:
what `collect` finds is then exactly what can be reached.

## Main results

* `mem_collect` — with enough steps, `collect` finds what can be reached
* `mem_dependents` — the dependents of a rule are the rules that depend on it through any
  number of steps
* `mem_contributors` — a lineage is made of everything that can be reached from its root
-/

namespace Cohort

variable {next : RuleId → List RuleId} {entries : List Entry} {a b id : RuleId}

/-- An identifier is one step away from another. -/
def Leads (next : RuleId → List RuleId) (a b : RuleId) : Prop := b ∈ next a

/-- What is collected can be reached from something that was pending. -/
theorem collect_sound {P : RuleId → Prop} (step : ∀ a b, P a → b ∈ next a → P b) :
    ∀ (steps : Nat) (pending found : List RuleId), (∀ a ∈ pending, P a) → (∀ a ∈ found, P a) →
      ∀ a ∈ collect next steps pending found, P a := by
  intro steps
  induction steps with
  | zero => exact fun _ _ _ hfound => hfound
  | succ steps ih =>
    intro pending found hpending hfound
    cases pending with
    | nil => exact hfound
    | cons id pending =>
      obtain ⟨hid, hrest⟩ := List.forall_mem_cons.mp hpending
      unfold collect
      split
      · exact ih pending found hrest hfound
      · refine ih _ _ (fun a ha => ?_) (List.forall_mem_cons.mpr ⟨hid, hfound⟩)
        rcases List.mem_append.mp ha with ha | ha
        · exact step id a hid ha
        · exact hrest a ha

/-- With a budget that pays for the steps out of every identifier, nothing is left behind: the
pending and the found identifiers are all collected, and so is everything one step away. -/
theorem collect_closed (cost : List RuleId → Nat)
    (pays : ∀ id found, id ∉ found → (next id).length + cost (id :: found) ≤ cost found) :
    ∀ (steps : Nat) (pending found : List RuleId), pending.length + cost found ≤ steps →
      (∀ a ∈ found, ∀ b ∈ next a, b ∈ found ∨ b ∈ pending) →
      (∀ a, a ∈ found ∨ a ∈ pending → a ∈ collect next steps pending found) ∧
        ∀ a ∈ collect next steps pending found, ∀ b ∈ next a,
          b ∈ collect next steps pending found := by
  intro steps
  induction steps with
  | zero =>
    intro pending found hbudget hclosed
    have none_pending : pending = [] := List.eq_nil_of_length_eq_zero (by omega)
    subst none_pending
    simpa [collect] using hclosed
  | succ steps ih =>
    intro pending found hbudget hclosed
    cases pending with
    | nil => simpa [collect] using hclosed
    | cons id pending =>
      rw [List.length_cons] at hbudget
      unfold collect
      split
      · next hid =>
        -- The identifier was taken up before: what waits for it does not have to wait.
        have settled : ∀ b, b ∈ found ∨ b ∈ id :: pending → b ∈ found ∨ b ∈ pending := by
          rintro b (hb | hb)
          · exact .inl hb
          · rcases List.mem_cons.mp hb with rfl | hb
            · exact .inl hid
            · exact .inr hb
        obtain ⟨kept, closed⟩ := ih pending found (by omega)
          fun a ha b hb => settled b (hclosed a ha b hb)
        exact ⟨fun a ha => kept a (settled a ha), closed⟩
      · next hid =>
        -- The identifier is new, and what it costs is paid for.
        have budget : (next id ++ pending).length + cost (id :: found) ≤ steps := by
          have := pays id found hid
          rw [List.length_append]
          omega
        have moved : ∀ b, b ∈ found ∨ b ∈ id :: pending →
            b ∈ id :: found ∨ b ∈ next id ++ pending := by
          intro b hb
          simp only [List.mem_cons, List.mem_append] at hb ⊢
          tauto
        obtain ⟨kept, closed⟩ := ih (next id ++ pending) (id :: found) budget fun a ha b hb => by
          rcases List.mem_cons.mp ha with rfl | ha
          · exact .inr (List.mem_append_left _ hb)
          · exact moved b (hclosed a ha b hb)
        exact ⟨fun a ha => kept a (moved a ha), closed⟩

/-- With enough steps, exactly what can be reached from an identifier is collected. -/
theorem mem_collect (cost : List RuleId → Nat)
    (pays : ∀ id found, id ∉ found → (next id).length + cost (id :: found) ≤ cost found)
    {steps : Nat} (enough : cost [] + 1 ≤ steps) :
    b ∈ collect next steps [a] [] ↔ Relation.ReflTransGen (Leads next) a b := by
  constructor
  · refine fun hb => collect_sound (P := Relation.ReflTransGen (Leads next) a)
      (fun x y hx hy => hx.tail hy) steps [a] [] ?_ ?_ b hb
    · simp [Relation.ReflTransGen.refl]
    · simp
  · intro h
    obtain ⟨kept, closed⟩ := collect_closed cost pays steps [a] []
      (by simpa [Nat.add_comm] using enough) (by simp)
    induction h with
    | refl => exact kept a (by simp)
    | tail _ hstep ih => exact closed _ ih _ hstep

/-! ## Rules that depend on a rule -/

theorem mem_childrenOf : b ∈ Entry.childrenOf entries a ↔ DependsOn entries b a := by
  simp only [Entry.childrenOf, List.mem_map, List.mem_filter, List.contains_iff_mem, DependsOn]
  constructor
  · rintro ⟨e, ⟨he, ha⟩, rfl⟩
    exact ⟨e, he, rfl, ha⟩
  · rintro ⟨e, he, rfl, ha⟩
    exact ⟨e, ⟨he, ha⟩, rfl⟩

/-- The dependencies that lead to a rule which is not found yet. -/
private def openEdges (entries : List Entry) (found : List RuleId) : Nat :=
  (entries.flatMap Entry.parents).countP fun p => p ∉ found

private theorem countP_not_mem_cons {l found : List RuleId} (h : id ∉ found) :
    l.count id + (l.countP fun p => p ∉ id :: found) = l.countP fun p => p ∉ found := by
  induction l with
  | nil => rfl
  | cons x rest ih =>
    by_cases hx : x = id
    · subst hx
      simp only [List.mem_cons, not_or, Bool.decide_and, decide_not, List.count_cons_self,
        List.countP_cons, h] at ih ⊢
      simp
      omega
    · simp only [List.mem_cons, not_or, Bool.decide_and, decide_not, List.countP_cons,
        List.count_cons_of_ne hx, hx] at ih ⊢
      simp
      omega

private theorem length_childrenOf_le (entries : List Entry) (id : RuleId) :
    (Entry.childrenOf entries id).length ≤ (entries.flatMap Entry.parents).count id := by
  unfold Entry.childrenOf
  rw [List.length_map]
  induction entries with
  | nil => simp
  | cons e rest ih =>
    rw [List.flatMap_cons, List.count_append, List.filter_cons]
    split
    · next h =>
      have : 0 < e.parents.count id := List.count_pos_iff.mpr (List.contains_iff_mem.mp h)
      rw [List.length_cons]
      omega
    · omega

/-- A rule is among the dependents of another if it depends on it through any number of steps. -/
theorem mem_dependents :
    b ∈ dependents entries a ↔ b ≠ a ∧ Relation.TransGen (DependsOn entries) b a := by
  -- Dependents are collected against the direction of dependency.
  have swap : Relation.ReflTransGen (Leads (Entry.childrenOf entries)) a b ↔
      Relation.ReflTransGen (DependsOn entries) b a := by
    rw [← Relation.reflTransGen_swap]
    have same : Function.swap (Leads (Entry.childrenOf entries)) = DependsOn entries := by
      funext x y
      exact propext mem_childrenOf
    rw [same]
  have pays : ∀ id found, id ∉ found → (Entry.childrenOf entries id).length +
      openEdges entries (id :: found) ≤ openEdges entries found := by
    intro id found hid
    have := countP_not_mem_cons (l := entries.flatMap Entry.parents) hid
    have := length_childrenOf_le entries id
    unfold openEdges
    omega
  have enough : openEdges entries [] + 1 ≤ Entry.edgeCount entries + 1 := by
    simp [openEdges, Entry.edgeCount]
  unfold dependents
  rw [List.mem_filter, RuleId.mem_ascending, mem_collect _ pays enough, swap, decide_eq_true_eq,
    Relation.reflTransGen_iff_eq_or_transGen]
  constructor
  · rintro ⟨h, hne⟩
    exact ⟨hne, h.resolve_left fun heq => hne heq.symm⟩
  · rintro ⟨hne, h⟩
    exact ⟨.inr h, hne⟩

/-- Where a rule has no dependents, no other rule combines its segment. -/
theorem not_dependsOn_of_dependents_eq_nil (h : dependents entries a = []) (hb : b ≠ a) :
    ¬ DependsOn entries b a := by
  intro hba
  have : b ∈ dependents entries a := mem_dependents.mpr ⟨hb, .single hba⟩
  simp [h] at this

/-! ## Rules that feed a rule -/

theorem lookup?_eq_some {e : Entry} (h : Entry.lookup? entries id = some e) :
    e ∈ entries ∧ e.id = id := by
  have := List.mem_of_getLast? h
  simpa using this

theorem lookup?_eq_none : Entry.lookup? entries id = none ↔ ∀ e ∈ entries, e.id ≠ id := by
  simp [Entry.lookup?]

/-- Where identifiers are distinct, every row is found under its own. -/
theorem lookup?_of_mem (distinct : (entries.map Entry.id).Nodup) {e : Entry} (he : e ∈ entries) :
    Entry.lookup? entries e.id = some e := by
  cases found : Entry.lookup? entries e.id with
  | none => exact absurd rfl (lookup?_eq_none.mp found e he)
  | some e' =>
    obtain ⟨he', hid⟩ := lookup?_eq_some found
    rw [List.inj_on_of_nodup_map distinct he' he hid]

theorem dependsOn_of_mem_parentsOf (h : b ∈ Entry.parentsOf entries a) : DependsOn entries a b := by
  unfold Entry.parentsOf at h
  cases found : Entry.lookup? entries a with
  | none => simp [found] at h
  | some e =>
    obtain ⟨he, rfl⟩ := lookup?_eq_some found
    exact ⟨e, he, rfl, by simpa [found] using h⟩

theorem mem_parentsOf (distinct : (entries.map Entry.id).Nodup) :
    b ∈ Entry.parentsOf entries a ↔ DependsOn entries a b := by
  refine ⟨dependsOn_of_mem_parentsOf, ?_⟩
  rintro ⟨e, he, rfl, hb⟩
  simpa [Entry.parentsOf, lookup?_of_mem distinct he] using hb

/-- The number of dependencies of the rules that are not found yet. -/
private def openParents (entries : List Entry) (found : List RuleId) : Nat :=
  (entries.map fun e => if e.id ∈ found then 0 else e.parents.length).sum

private theorem openParents_cons_le (entries : List Entry) (id : RuleId) (found : List RuleId) :
    openParents entries (id :: found) ≤ openParents entries found := by
  refine List.sum_le_sum fun e _ => ?_
  by_cases h : e.id ∈ found
  · simp [h]
  · simp only [List.mem_cons, h, or_false, if_false]
    split <;> omega

/-- Taking up a rule pays for its dependencies. -/
private theorem parents_add_openParents_le {e : Entry} {found : List RuleId} (he : e ∈ entries)
    (hid : e.id ∉ found) :
    e.parents.length + openParents entries (e.id :: found) ≤ openParents entries found := by
  induction entries with
  | nil => cases he
  | cons x rest ih =>
    have rest_le := openParents_cons_le rest e.id found
    unfold openParents at ih rest_le ⊢
    simp only [List.map_cons, List.sum_cons]
    rcases List.mem_cons.mp he with rfl | he
    · simp only [List.mem_cons_self, if_true, if_neg hid]
      omega
    · have := ih he
      by_cases hx : x.id ∈ found
      · simp only [List.mem_cons, hx, or_true, if_true]
        simpa using this
      · simp only [List.mem_cons, hx, or_false, if_false] at this ⊢
        split <;> omega

/-- The lineage of a rule is made of everything that can be reached along its dependencies. -/
theorem mem_contributors (distinct : (entries.map Entry.id).Nodup) :
    b ∈ Lineage.contributors entries a ↔ Relation.ReflTransGen (DependsOn entries) a b := by
  have same : Leads (Entry.parentsOf entries) = DependsOn entries := by
    funext x y
    exact propext (mem_parentsOf distinct)
  -- The budget is the number of dependencies that are not taken up yet.
  have pays : ∀ id found, id ∉ found → (Entry.parentsOf entries id).length +
      openParents entries (id :: found) ≤ openParents entries found := by
    intro id found hid
    cases hid' : Entry.lookup? entries id with
    | none => simpa [Entry.parentsOf, hid'] using openParents_cons_le entries id found
    | some e =>
      obtain ⟨he, rfl⟩ := lookup?_eq_some hid'
      simpa [Entry.parentsOf, hid'] using parents_add_openParents_le he hid
  have enough : openParents entries [] + 1 ≤ Entry.edgeCount entries + 1 := by
    simp [openParents, Entry.edgeCount, List.length_flatMap]
  rw [Lineage.contributors, RuleId.mem_ascending, mem_collect _ pays enough, same]

end Cohort
