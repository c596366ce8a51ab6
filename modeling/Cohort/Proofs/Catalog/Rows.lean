import Cohort.Catalog

/-!
# The rows of a catalogue

A catalogue stores each row under the identifier of its rule and no two rows under one
identifier. The rows can then be listed or looked up with the same outcome. This module
says what each change of the catalogue does to the rows.

## Main definitions

* `Catalog.Indexed` — each row is stored under its own identifier, once

## Main results

* `Catalog.Indexed.mem_list` — the listed rows are those that can be looked up
* `Catalog.Indexed.mem_list_put`, `Catalog.Indexed.mem_list_erase` — rows after a change
* `Catalog.insert_cases`, `Catalog.replace_cases`, `Catalog.remove_cases`,
  `Catalog.modify_cases` — all that an operation can do
-/

namespace Cohort.Catalog

variable {c c' : Catalog} {e : Entry} {id : RuleId}

/-- Each row is stored under the identifier of its rule, and no identifier has two rows. -/
structure Indexed (c : Catalog) : Prop where
  keyed : ∀ p ∈ c.rows, p.1 = p.2.id
  distinct : (c.rows.map Prod.fst).Nodup

theorem indexed_empty : ({} : Catalog).Indexed := ⟨by simp, List.nodup_nil⟩

theorem mem_list_iff : e ∈ c.list ↔ ∃ id, (id, e) ∈ c.rows := by
  simp [list]

namespace Indexed

theorem get?_eq_some (h : c.Indexed) : c.get? id = some e ↔ e ∈ c.list ∧ e.id = id := by
  unfold get?
  rw [Assoc.get?_eq_some h.distinct, mem_list_iff]
  constructor
  · intro he
    exact ⟨⟨id, he⟩, (h.keyed _ he).symm⟩
  · rintro ⟨⟨key, he⟩, rfl⟩
    rwa [← h.keyed _ he]

theorem mem_list (h : c.Indexed) : e ∈ c.list ↔ c.get? e.id = some e := by
  simp [h.get?_eq_some]

theorem id_of_get? (h : c.Indexed) (he : c.get? id = some e) : e.id = id :=
  (h.get?_eq_some.mp he).2

theorem isSome_get? (h : c.Indexed) : (c.get? id).isSome ↔ ∃ e ∈ c.list, e.id = id := by
  simp only [Option.isSome_iff_exists, h.get?_eq_some]

theorem eq_of_id_eq (h : c.Indexed) {e' : Entry} (he : e ∈ c.list) (he' : e' ∈ c.list)
    (hid : e.id = e'.id) : e = e' := by
  rw [h.mem_list] at he he'
  rw [hid, he'] at he
  exact (Option.some.inj he).symm

theorem nodup_ids (h : c.Indexed) : (c.list.map Entry.id).Nodup := by
  have perm : (c.list.map Entry.id).Perm (c.rows.map Prod.fst) := by
    have keys : c.rows.map Prod.fst = (c.rows.map (·.2)).map Entry.id := by
      rw [List.map_map]
      exact List.map_congr_left h.keyed
    rw [keys]
    exact (sortBy_perm _ _).map _
  exact perm.nodup_iff.mpr h.distinct

/-- Putting a row under its identifier. -/
theorem put (h : c.Indexed) (hr : c'.rows = Assoc.put e.id e c.rows) : c'.Indexed where
  keyed p hp := by
    rw [hr] at hp
    rcases Assoc.mem_put hp with rfl | hp
    · rfl
    · exact h.keyed p hp
  distinct := by
    rw [hr]
    exact Assoc.nodup_keys_put h.distinct

/-- Removing a row. -/
theorem erase (h : c.Indexed) (hr : c'.rows = Assoc.erase id c.rows) : c'.Indexed where
  keyed p hp := by
    rw [hr] at hp
    exact h.keyed p ((List.mem_filter.mp hp).1)
  distinct := by
    rw [hr]
    exact Assoc.nodup_keys_erase h.distinct

end Indexed

/-! ## Reading after a change -/

theorem get?_of_put_at (hr : c'.rows = Assoc.put id e c.rows) (a : RuleId) :
    c'.get? a = if id = a then some e else c.get? a := by
  rw [get?, hr, Assoc.get?_put]
  rfl

theorem get?_of_put (hr : c'.rows = Assoc.put e.id e c.rows) (id : RuleId) :
    c'.get? id = if e.id = id then some e else c.get? id := get?_of_put_at hr id

theorem get?_of_erase (hr : c'.rows = Assoc.erase id c.rows) (a : RuleId) :
    c'.get? a = if id = a then none else c.get? a := by
  rw [get?, hr, Assoc.get?_erase]
  rfl

theorem Indexed.mem_list_put (h : c.Indexed) (hr : c'.rows = Assoc.put e.id e c.rows)
    {x : Entry} : x ∈ c'.list ↔ x = e ∨ x ∈ c.list ∧ x.id ≠ e.id := by
  rw [(h.put hr).mem_list, get?_of_put hr, h.mem_list]
  by_cases hx : e.id = x.id
  · simp [hx, eq_comm]
  · have hne : x ≠ e := by
      rintro rfl
      exact hx rfl
    simp [hx, hne, Ne.symm hx]

theorem Indexed.mem_list_erase (h : c.Indexed) (hr : c'.rows = Assoc.erase id c.rows)
    {x : Entry} : x ∈ c'.list ↔ x ∈ c.list ∧ x.id ≠ id := by
  rw [(h.erase hr).mem_list, get?_of_erase hr, h.mem_list]
  by_cases hx : id = x.id
  · simp [hx]
  · simp [hx, Ne.symm hx]

/-! ## What the operations do -/

/-- Inserting fails and changes nothing, or it adds a valid row under a fresh identifier. -/
theorem insert_cases (c : Catalog) (e : Entry) :
    (∃ failure, c.insert e = (.error failure, c)) ∨
      ∃ c', c.insert e = (.ok { e with version := 1 }, c') ∧ e.validate = .ok () ∧
        c.get? e.id = none ∧ Assoc.has e.rule.name c.names = false ∧
        c'.rows = Assoc.put e.id { e with version := 1 } c.rows ∧
        c'.names = Assoc.put e.rule.name e.id c.names ∧ c'.nextId = c.nextId := by
  unfold insert
  split
  · next failure _ => exact .inl ⟨failure, rfl⟩
  · next valid =>
    split
    · exact .inl ⟨_, rfl⟩
    · next hname =>
      have free : Assoc.has e.rule.name c.names = false := by simpa using hname
      split
      · have none_named : Assoc.get? e.rule.name c.names = none := by
          simpa [Assoc.has] using free
        dsimp only
        rw [Assoc.erase_put_of_get?_eq_none none_named]
        exact .inl ⟨_, rfl⟩
      · next hid =>
        refine .inr ⟨_, rfl, valid, ?_, free, rfl, rfl, rfl⟩
        simpa [get?, Assoc.has] using hid

/-- Replacing fails and changes nothing, or it puts a valid row in place of one of the expected
version. -/
theorem replace_cases (c : Catalog) (e : Entry) (expected : Nat) :
    (∃ failure, c.replace e expected = (.error failure, c)) ∨
      ∃ current c', c.replace e expected = (.ok { e with version := expected + 1 }, c') ∧
        e.validate = .ok () ∧ c.get? e.id = some current ∧ current.version = expected ∧
        (current.rule.name = e.rule.name ∨ Assoc.has e.rule.name c.names = false) ∧
        c'.rows = Assoc.put e.id { e with version := expected + 1 } c.rows ∧
        (c'.names = if current.rule.name = e.rule.name then c.names
          else Assoc.erase current.rule.name (Assoc.put e.rule.name e.id c.names)) ∧
        c'.nextId = c.nextId := by
  unfold replace
  split
  · next failure _ => exact .inl ⟨failure, rfl⟩
  · next valid =>
    split
    · exact .inl ⟨_, rfl⟩
    · next current found =>
      split
      · exact .inl ⟨_, rfl⟩
      · next hversion =>
        split
        · exact .inl ⟨_, rfl⟩
        · next hname =>
          refine .inr ⟨current, _, rfl, valid, found, Decidable.not_not.mp hversion, ?_, rfl, rfl,
            rfl⟩
          simpa [Decidable.imp_iff_not_or] using hname

/-- A valid row can replace one of the expected version whose name it has, or if its name is
free. -/
theorem replace_eq {current : Entry} {expected : Nat} (valid : e.validate = .ok ())
    (found : c.get? e.id = some current) (same_version : current.version = expected)
    (free : current.rule.name = e.rule.name ∨ Assoc.has e.rule.name c.names = false) :
    c.replace e expected = (.ok { e with version := expected + 1 },
      { c with
        rows := Assoc.put e.id { e with version := expected + 1 } c.rows
        names :=
          if current.rule.name = e.rule.name then c.names
          else Assoc.erase current.rule.name (Assoc.put e.rule.name e.id c.names) }) := by
  have not_taken : ¬(current.rule.name ≠ e.rule.name ∧ Assoc.has e.rule.name c.names = true) := by
    rintro ⟨renamed, taken⟩
    rw [free.resolve_left renamed] at taken
    cases taken
  simp only [replace, valid, found, same_version, ne_eq, not_true_eq_false, if_false]
  rw [if_neg not_taken]

theorem remove_eq (found : c.get? id = some e) :
    c.remove id = (.ok e,
      { c with rows := Assoc.erase id c.rows, names := Assoc.erase e.rule.name c.names }) := by
  simp only [remove, found]

/-- Removing fails and changes nothing, or it takes out a row that was there. -/
theorem remove_cases (c : Catalog) (id : RuleId) :
    (∃ failure, c.remove id = (.error failure, c)) ∨
      ∃ current c', c.remove id = (.ok current, c') ∧ c.get? id = some current ∧
        c'.rows = Assoc.erase id c.rows ∧
        c'.names = Assoc.erase current.rule.name c.names := by
  unfold remove
  split
  · exact .inl ⟨_, rfl⟩
  · next current found => exact .inr ⟨current, _, rfl, found, rfl, rfl⟩

/-- Changing a row in place fails and changes nothing, or it changes a row that was there. -/
theorem modify_cases (c : Catalog) (id : RuleId) (f : Entry → Entry) :
    c.modify id f = (.error (.ruleNotFound id), c) ∧ c.get? id = none ∨
      ∃ current c', c.modify id f = (.ok (), c') ∧ c.get? id = some current ∧
        c'.rows = Assoc.put id (f current) c.rows ∧ c'.names = c.names := by
  unfold modify
  split
  · next missing => exact .inl ⟨rfl, missing⟩
  · next current found => exact .inr ⟨current, _, rfl, found, rfl, rfl⟩

end Cohort.Catalog
