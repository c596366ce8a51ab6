import Cohort.Proofs.Catalog.Rows
import Cohort.Proofs.Lineage.Dependency

/-!
# Sound catalogues

A catalogue is sound if its rows are free of defects, if every rule that a row depends on
has a row too, and if no rule depends on itself. A check of single rows sees only the first
of these. The others hold on because a row is put in place of another only where its
dependencies stay the same or where no other rule depends on it.

## Main definitions

* `Catalog.Sound` — no defects, no missing dependencies, no cycles
* `Entry.definition` — an entry without what runs leave behind
* `Catalog.SameDefinitions` — two catalogues have the same rows up to what runs leave behind

## Main results

* `Catalog.Sound.put`, `Catalog.Sound.erase` — when changes of a row keep a catalogue sound
* `Catalog.Sound.of_sameDefinitions` — soundness does not depend on what runs leave behind
-/

namespace Cohort

/-! ## Valid rows -/

namespace Entry

variable {e : Entry}

theorem validate_eq_ok : e.validate = .ok () ↔ e.defect? = none := by
  unfold validate
  cases e.defect? <;> simp

/-- What a row without a defect is: a query of its own, or a combination of other rules. -/
theorem valid_cases (h : e.validate = .ok ()) :
    (∃ q, e.segment.source = .base q ∧ e.rule.dependencies = none) ∨
      ∃ dependencies operation residual,
        e.segment.source = .composite dependencies operation residual ∧
          e.rule.dependencies = some dependencies ∧ e.rule.operation = some operation ∧
            dependencies ≠ [] ∧ e.id ∉ dependencies ∧ dependencies.Nodup := by
  rw [validate_eq_ok] at h
  unfold defect? at h
  -- Each check that a valid row has passed leaves one fact.
  split at h
  · cases h
  split at h
  · cases h
  split at h
  · cases h
  unfold sourceDefect? at h
  split at h
  · next q hsource hdependencies => exact .inl ⟨q, hsource, hdependencies⟩
  · next dependsOn operation residual dependencies hsource hdependencies =>
    split at h
    · cases h
    next agree =>
    split at h
    · cases h
    next nonempty =>
    split at h
    · cases h
    next other =>
    simp only [not_or, Decidable.not_not] at agree
    obtain ⟨rfl, hoperation⟩ := agree
    refine .inr ⟨dependsOn, operation, residual, hsource, hdependencies, hoperation.symm,
      ?_, ?_, ?_⟩
    · simpa using nonempty
    · simpa [id] using other
    · simpa using h
  · cases h

/-- A valid row has dependencies just if it has an operation. -/
theorem isSome_dependencies (h : e.validate = .ok ()) :
    e.rule.dependencies.isSome = e.rule.operation.isSome := by
  rw [validate_eq_ok] at h
  unfold defect? at h
  split at h
  · cases h
  split at h
  · cases h
  split at h
  · cases h
  · next complete => exact Decidable.not_not.mp complete

theorem not_mem_parents_self (h : e.validate = .ok ()) : e.id ∉ e.parents := by
  rcases valid_cases h with ⟨q, hsource, -⟩ | ⟨dependencies, _, _, hsource, -, -, -, other, -⟩
  · simp [parents, SegmentSource.parents, SegmentSource.dependsOn?, hsource]
  · simpa [parents, SegmentSource.parents, SegmentSource.dependsOn?, hsource] using other

/-- The entry without what runs leave behind. -/
def definition (e : Entry) : Entry where
  rule := { e.rule with nextRunAt := none, lastRunAt := none }
  segment := { e.segment with rowCount := 0, lastRefreshedAt := none, dataAsOf := none }
  version := 0

@[simp] theorem definition_refreshed (r : Refresh) : (e.refreshed r).definition = e.definition :=
  rfl

@[simp] theorem definition_ran (last next : Instant) :
    (e.ran last next).definition = e.definition := rfl

@[simp] theorem definition_id : e.definition.id = e.id := rfl

@[simp] theorem definition_parents : e.definition.parents = e.parents := rfl

@[simp] theorem definition_source : e.definition.segment.source = e.segment.source := rfl

@[simp] theorem definition_table : e.definition.segment.table = e.segment.table := rfl

@[simp] theorem definition_name : e.definition.rule.name = e.rule.name := rfl

@[simp] theorem definition_active : e.definition.rule.active = e.rule.active := rfl

@[simp] theorem definition_declared : e.definition.rule.declared = e.rule.declared := rfl

@[simp] theorem definition_validate : e.definition.validate = e.validate := rfl

@[simp] theorem validate_version (version : Nat) : { e with version }.validate = e.validate := rfl

@[simp] theorem id_version (version : Nat) : { e with version }.id = e.id := rfl

@[simp] theorem parents_version (version : Nat) : { e with version }.parents = e.parents := rfl

end Entry

namespace Catalog

variable {c c' : Catalog} {e : Entry} {id : RuleId}

/-- The rows have no defects, their dependencies have rows, and no rule depends on itself. -/
structure Sound (c : Catalog) : Prop where
  indexed : c.Indexed
  valid : ∀ e ∈ c.list, e.validate = .ok ()
  present : ∀ e ∈ c.list, ∀ p ∈ e.parents, (c.get? p).isSome
  acyclic : Acyclic c.list

theorem sound_empty : ({} : Catalog).Sound where
  indexed := indexed_empty
  valid := by simp [mem_list_iff]
  present := by simp [mem_list_iff]
  acyclic id cycle := by
    obtain ⟨b, hb, -⟩ := Relation.TransGen.head'_iff.mp cycle
    obtain ⟨e, he, -⟩ := hb
    simp [mem_list_iff] at he

namespace Sound

/-- Soundness is a matter of the rows alone. -/
theorem of_rows_eq (h : c.Sound) (hr : c'.rows = c.rows) : c'.Sound := by
  have same_get? : c'.get? = c.get? := by
    funext id
    rw [get?, get?, hr]
  have same_list : c'.list = c.list := by rw [list, list, hr]
  refine ⟨⟨hr ▸ h.indexed.keyed, hr ▸ h.indexed.distinct⟩, ?_, ?_, ?_⟩
  · exact same_list ▸ h.valid
  · rw [same_list, same_get?]
    exact h.present
  · exact same_list ▸ h.acyclic

/-- A dependency of a row is a row. -/
theorem exists_parent (h : c.Sound) {p : RuleId} (he : e ∈ c.list) (hp : p ∈ e.parents) :
    ∃ e' ∈ c.list, e'.id = p :=
  h.indexed.isSome_get?.mp (h.present e he p hp)

/-- Nothing depends on a rule that has no row. -/
theorem not_dependsOn_of_get?_eq_none (h : c.Sound) (missing : c.get? id = none) (a : RuleId) :
    ¬ DependsOn c.list a id := by
  rintro ⟨e, he, -, hid⟩
  have := h.present e he id hid
  simp [missing] at this

/-- A valid row can be put in place if its dependencies are there, and if they are those of the
row before or nothing depends on the rule. -/
theorem put (h : c.Sound) (hr : c'.rows = Assoc.put e.id e c.rows) (valid : e.validate = .ok ())
    (present : ∀ p ∈ e.parents, (c.get? p).isSome)
    (edges : (∃ old, c.get? e.id = some old ∧ old.parents = e.parents) ∨
      ∀ a, a ≠ e.id → ¬ DependsOn c.list a e.id) : c'.Sound where
  indexed := h.indexed.put hr
  valid x hx := by
    rcases (h.indexed.mem_list_put hr).mp hx with rfl | ⟨hx, -⟩
    · exact valid
    · exact h.valid x hx
  present x hx p hp := by
    have there : (c.get? p).isSome := by
      rcases (h.indexed.mem_list_put hr).mp hx with rfl | ⟨hx, -⟩
      · exact present p hp
      · exact h.present x hx p hp
    rw [get?_of_put hr]
    split
    · rfl
    · exact there
  acyclic := by
    rcases edges with ⟨old, hold, same⟩ | free
    -- Every dependency was there before.
    · refine h.acyclic.mono ?_
      rintro a b ⟨x, hx, rfl, hb⟩
      rcases (h.indexed.mem_list_put hr).mp hx with rfl | ⟨hx, -⟩
      · obtain ⟨hmem, hid⟩ := h.indexed.get?_eq_some.mp hold
        exact ⟨old, hmem, hid, same ▸ hb⟩
      · exact ⟨x, hx, rfl, hb⟩
    -- New dependencies lead away from a rule that no path leads to.
    · refine h.acyclic.of_agree_off e.id ?_ ?_
      · rintro a b ha ⟨x, hx, rfl, hb⟩
        rcases (h.indexed.mem_list_put hr).mp hx with rfl | ⟨hx, -⟩
        · exact absurd rfl ha
        · exact ⟨x, hx, rfl, hb⟩
      · rintro a ⟨x, hx, rfl, hb⟩
        rcases (h.indexed.mem_list_put hr).mp hx with rfl | ⟨hx, hne⟩
        · exact Entry.not_mem_parents_self valid hb
        · exact free x.id hne ⟨x, hx, rfl, hb⟩

/-- A row on which no other depends can be removed. -/
theorem erase (h : c.Sound) (hr : c'.rows = Assoc.erase id c.rows)
    (free : ∀ a, a ≠ id → ¬ DependsOn c.list a id) : c'.Sound where
  indexed := h.indexed.erase hr
  valid x hx := h.valid x ((h.indexed.mem_list_erase hr).mp hx).1
  present x hx p hp := by
    obtain ⟨hx, hne⟩ := (h.indexed.mem_list_erase hr).mp hx
    have hp_ne : id ≠ p := by
      rintro rfl
      exact free x.id hne ⟨x, hx, rfl, hp⟩
    rw [get?_of_erase hr, if_neg hp_ne]
    exact h.present x hx p hp
  acyclic := by
    refine h.acyclic.mono ?_
    rintro a b ⟨x, hx, rfl, hb⟩
    exact ⟨x, ((h.indexed.mem_list_erase hr).mp hx).1, rfl, hb⟩

end Sound

/-! ## What runs leave alone -/

/-- The catalogues have the same rows up to what runs leave behind. -/
def SameDefinitions (c c' : Catalog) : Prop :=
  ∀ id, (c'.get? id).map Entry.definition = (c.get? id).map Entry.definition

namespace SameDefinitions

theorem refl (c : Catalog) : c.SameDefinitions c := fun _ => rfl

theorem trans {c₁ c₂ c₃ : Catalog} (h : c₁.SameDefinitions c₂) (h' : c₂.SameDefinitions c₃) :
    c₁.SameDefinitions c₃ := fun id => (h' id).trans (h id)

theorem symm (h : c.SameDefinitions c') : c'.SameDefinitions c := fun id => (h id).symm

/-- A row of one catalogue is a row of the other. -/
theorem exists_get? (h : c.SameDefinitions c') {e' : Entry} (he : c'.get? id = some e') :
    ∃ e, c.get? id = some e ∧ e.definition = e'.definition := by
  have hid := h id
  rw [he, Option.map_some] at hid
  exact Option.map_eq_some_iff.mp hid.symm

theorem exists_mem (h : c.SameDefinitions c') (hc : c.Indexed) (hc' : c'.Indexed) {e' : Entry}
    (he : e' ∈ c'.list) : ∃ e ∈ c.list, e.definition = e'.definition := by
  obtain ⟨e, found, same⟩ := h.exists_get? (hc'.mem_list.mp he)
  exact ⟨e, (hc.get?_eq_some.mp found).1, same⟩

theorem isSome_get? (h : c.SameDefinitions c') (id : RuleId) :
    (c'.get? id).isSome = (c.get? id).isSome := by
  rw [← Option.isSome_map (f := Entry.definition), h id, Option.isSome_map]

theorem dependsOn (h : c.SameDefinitions c') (hc : c.Indexed) (hc' : c'.Indexed) {a b : RuleId}
    (hab : DependsOn c'.list a b) : DependsOn c.list a b := by
  obtain ⟨e', he', rfl, hb⟩ := hab
  obtain ⟨e, he, same⟩ := h.exists_mem hc hc' he'
  refine ⟨e, he, ?_, ?_⟩
  · rw [← Entry.definition_id, same, Entry.definition_id]
  · rwa [← Entry.definition_parents, same, Entry.definition_parents]

end SameDefinitions

/-- Soundness is a matter of definitions alone. -/
theorem Sound.of_sameDefinitions (h : c.Sound) (indexed : c'.Indexed)
    (same : c.SameDefinitions c') : c'.Sound where
  indexed := indexed
  valid e' he' := by
    obtain ⟨e, he, hdef⟩ := same.exists_mem h.indexed indexed he'
    rw [← Entry.definition_validate, ← hdef, Entry.definition_validate]
    exact h.valid e he
  present e' he' p hp := by
    obtain ⟨e, he, hdef⟩ := same.exists_mem h.indexed indexed he'
    rw [same.isSome_get?]
    rw [← Entry.definition_parents, ← hdef, Entry.definition_parents] at hp
    exact h.present e he p hp
  acyclic := h.acyclic.mono fun _ _ => same.dependsOn h.indexed indexed

end Catalog

end Cohort
