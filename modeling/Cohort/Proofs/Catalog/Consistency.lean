import Cohort.Proofs.Catalog.Soundness
import Cohort.Proofs.Program.Requests

/-!
# Consistent catalogues

What the catalogue checks by itself holds whatever is asked of it and in which order: each row
is stored under its identifier, it is free of defects, and the name index leads back to it. This
does not depend on which program makes the requests, and it holds while many programs make
theirs in turns.

## Main definitions

* `Catalog.Consistent` — the rows and the name index agree

## Main results

* `State.perform_consistent` — all requests keep a catalogue consistent
-/

namespace Cohort

variable {c c' : Catalog} {e : Entry} {id : RuleId}

/-- The rows are stored under their identifiers, they have no defects, and their names are
indexed. -/
structure Catalog.Consistent (c : Catalog) : Prop where
  indexed : c.Indexed
  valid : ∀ e ∈ c.list, e.validate = .ok ()
  names : ∀ e ∈ c.list, Assoc.get? e.rule.name c.names = some e.id

namespace Catalog.Consistent

theorem empty : ({} : Catalog).Consistent :=
  ⟨indexed_empty, by simp [mem_list_iff], by simp [mem_list_iff]⟩

/-- A row and a name say the same about each other. -/
theorem id_eq_of_name (h : c.Consistent) (he : e ∈ c.list) {name : String}
    (indexed : Assoc.get? name c.names = some id) (same : e.rule.name = name) : e.id = id := by
  have found := h.names e he
  rw [same, indexed] at found
  exact (Option.some.inj found).symm

/-- A valid row can be put in place if the index leads to it and still leads to all others. -/
theorem put (h : c.Consistent) (hr : c'.rows = Assoc.put e.id e c.rows)
    (valid : e.validate = .ok ()) (named : Assoc.get? e.rule.name c'.names = some e.id)
    (others : ∀ x ∈ c.list, x.id ≠ e.id → Assoc.get? x.rule.name c'.names = some x.id) :
    c'.Consistent where
  indexed := h.indexed.put hr
  valid x hx := by
    rcases (h.indexed.mem_list_put hr).mp hx with rfl | ⟨hx, -⟩
    · exact valid
    · exact h.valid x hx
  names x hx := by
    rcases (h.indexed.mem_list_put hr).mp hx with rfl | ⟨hx, other⟩
    · exact named
    · exact others x hx other

theorem insert (h : c.Consistent) (e : Entry) : (c.insert e).2.Consistent := by
  rcases c.insert_cases e
    with ⟨failure, unchanged⟩ | ⟨c', inserted, valid, fresh, free, hrows, hnames, -⟩
  · rw [unchanged]
    exact h
  · rw [inserted]
    refine h.put (e := { e with version := 1 }) hrows valid ?_ fun x hx _ => ?_
    · rw [hnames, Assoc.get?_put, if_pos rfl]
      rfl
    -- The name was free, so no other row has it.
    · have other : e.rule.name ≠ x.rule.name := by
        intro same
        rw [same, Assoc.has, h.names x hx] at free
        cases free
      rw [hnames, Assoc.get?_put, if_neg other, h.names x hx]

theorem replace (h : c.Consistent) (e : Entry) (expected : Nat) :
    (c.replace e expected).2.Consistent := by
  rcases c.replace_cases e expected
    with ⟨failure, unchanged⟩ |
      ⟨current, c', replaced, valid, found, -, free, hrows, hnames, -⟩
  · rw [unchanged]
    exact h
  · rw [replaced]
    obtain ⟨hcurrent, hid⟩ := h.indexed.get?_eq_some.mp found
    have current_name := h.names current hcurrent
    rw [hid] at current_name
    refine h.put (e := { e with version := expected + 1 }) hrows valid ?_ fun x hx other => ?_
    · rw [hnames]
      split
      · next same => exact same ▸ current_name
      · next renamed => rw [Assoc.get?_erase, if_neg renamed, Assoc.get?_put, if_pos rfl]; rfl
    · rw [hnames]
      have not_current : current.rule.name ≠ x.rule.name := fun same =>
        other (h.id_eq_of_name hx current_name same.symm)
      split
      · exact h.names x hx
      · next renamed =>
        have not_new : e.rule.name ≠ x.rule.name := by
          intro same
          have taken := free.resolve_left renamed
          rw [same, Assoc.has, h.names x hx] at taken
          cases taken
        rw [Assoc.get?_erase, if_neg not_current, Assoc.get?_put, if_neg not_new, h.names x hx]

theorem remove (h : c.Consistent) (id : RuleId) : (c.remove id).2.Consistent := by
  rcases c.remove_cases id
    with ⟨failure, unchanged⟩ | ⟨current, c', removed, found, hrows, hnames⟩
  · rw [unchanged]
    exact h
  · rw [removed]
    obtain ⟨hcurrent, rfl⟩ := h.indexed.get?_eq_some.mp found
    refine ⟨h.indexed.erase hrows, fun x hx => ?_, fun x hx => ?_⟩
    · exact h.valid x ((h.indexed.mem_list_erase hrows).mp hx).1
    · obtain ⟨hx, other⟩ := (h.indexed.mem_list_erase hrows).mp hx
      have not_current : current.rule.name ≠ x.rule.name := fun same =>
        other (h.id_eq_of_name hx (h.names current hcurrent) same.symm)
      rw [hnames, Assoc.get?_erase, if_neg not_current, h.names x hx]

/-- A change in place that leaves the definition of a row alone. -/
theorem modify (h : c.Consistent) (id : RuleId) {f : Entry → Entry}
    (same : ∀ e, (f e).definition = e.definition) : (c.modify id f).2.Consistent := by
  rcases c.modify_cases id f
    with ⟨unchanged, -⟩ | ⟨current, c', changed, found, hrows, hnames⟩
  · rw [unchanged]
    exact h
  · rw [changed]
    obtain ⟨hcurrent, rfl⟩ := h.indexed.get?_eq_some.mp found
    have same_id : (f current).id = current.id := by
      rw [← Entry.definition_id, same, Entry.definition_id]
    have same_name : (f current).rule.name = current.rule.name := by
      rw [← Entry.definition_name, same, Entry.definition_name]
    refine h.put (e := f current) (by rw [same_id]; exact hrows) ?_ ?_ fun x hx _ => ?_
    · rw [← Entry.definition_validate, same, Entry.definition_validate]
      exact h.valid current hcurrent
    · rw [hnames, same_name, same_id]
      exact h.names current hcurrent
    · rw [hnames]
      exact h.names x hx

end Catalog.Consistent

namespace State

/-- A catalogue stays consistent whatever is asked of it. -/
theorem perform_consistent {s : State} (h : s.catalog.Consistent) (r : Request) :
    (s.perform r).2.catalog.Consistent := by
  by_cases hr : r.leavesCatalog = true
  · rw [perform_catalog hr]
    exact h
  · cases r <;> simp [Request.leavesCatalog] at hr
    case allocateId => exact ⟨⟨h.indexed.keyed, h.indexed.distinct⟩, h.valid, h.names⟩
    case insertRow e => exact h.insert e
    case replaceRow e expected =>
      simp only [perform, replaceRow]
      split
      · exact h
      · exact h.replace e expected
    case removeRow id =>
      simp only [perform, removeRow]
      split
      · exact h
      · exact h.remove id
    case recordRefresh id refresh =>
      simp only [perform, recordRefresh]
      split
      · exact h
      · exact h.modify id fun _ => rfl
    case recordRun id last next =>
      simp only [perform, recordRun]
      split
      · exact h
      · exact h.modify id fun _ => rfl

end State

end Cohort
