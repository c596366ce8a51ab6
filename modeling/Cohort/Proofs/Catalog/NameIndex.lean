import Cohort.Proofs.Catalog.Consistency

/-!
# The name index

A catalogue keeps its rows in one map and the names of its rules in another. Inserting and
replacing touch the names before it is clear that the row can be written. The two maps stay in
step all the same: whatever changes are asked of an empty catalogue, with whatever entries, a
name leads to a rule exactly if that rule has a row of this name.

## Main definitions

* `Catalog.Change` — what can be asked of a catalogue, and `Catalog.change`
* `Catalog.after` — an empty catalogue after a list of changes
* `Catalog.Exact` — the name index is the inverse of the rows, and the rows are in order

## Main results

* `Catalog.change_of_error` — a change that fails leaves the catalogue as it was
* `Catalog.Exact.change` — a change keeps a catalogue exact
* `Catalog.after_exact` — a catalogue is exact after any changes
-/

namespace Cohort.Catalog

variable {c c' : Catalog} {e : Entry} {id : RuleId} {name : String} {count : Nat}

/-! ## Changes -/

/-- What can be asked of a catalogue. -/
inductive Change where
  | insert (e : Entry)
  | replace (e : Entry) (expected : Nat)
  | remove (id : RuleId)
  | recordRefresh (id : RuleId) (refresh : Refresh)
  | recordRun (id : RuleId) (last next : Instant)

/-- The catalogue after a change, and the failure of the change if it fails. -/
def change (c : Catalog) : Change → Except Failure Unit × Catalog
  | .insert e => ((c.insert e).1.map fun _ => (), (c.insert e).2)
  | .replace e expected => ((c.replace e expected).1.map fun _ => (), (c.replace e expected).2)
  | .remove id => ((c.remove id).1.map fun _ => (), (c.remove id).2)
  | .recordRefresh id refresh => c.recordRefresh id refresh
  | .recordRun id last next => c.recordRun id last next

/-- An empty catalogue after a list of changes, some of which may have failed. -/
def after (changes : List Change) : Catalog := changes.foldl (fun c x => (c.change x).2) {}

@[simp] theorem after_nil : after [] = {} := rfl

@[simp] theorem after_append_singleton (changes : List Change) (x : Change) :
    after (changes ++ [x]) = ((after changes).change x).2 := by
  simp [after]

/-- A change that fails leaves the catalogue as it was. -/
theorem change_of_error {x : Change} {failure : Failure}
    (h : (c.change x).1 = .error failure) : (c.change x).2 = c := by
  cases x with
  | insert e =>
    rcases c.insert_cases e with ⟨_, unchanged⟩ | ⟨c', inserted, -⟩
    · rw [change, unchanged]
    · rw [change, inserted] at h
      cases h
  | replace e expected =>
    rcases c.replace_cases e expected with ⟨_, unchanged⟩ | ⟨_, c', replaced, -⟩
    · rw [change, unchanged]
    · rw [change, replaced] at h
      cases h
  | remove id =>
    rcases c.remove_cases id with ⟨_, unchanged⟩ | ⟨_, c', removed, -⟩
    · rw [change, unchanged]
    · rw [change, removed] at h
      cases h
  | recordRefresh id refresh =>
    rcases c.modify_cases id (fun e => e.refreshed refresh) with
      ⟨unchanged, -⟩ | ⟨_, c', changed, -⟩
    · rw [change, recordRefresh, unchanged]
    · rw [change, recordRefresh, changed] at h
      cases h
  | recordRun id last next =>
    rcases c.modify_cases id (fun e => e.ran last next) with ⟨unchanged, -⟩ | ⟨_, c', changed, -⟩
    · rw [change, recordRun, unchanged]
    · rw [change, recordRun, changed] at h
      cases h

/-! ## Rows in order -/

/-- The listed rows ascend, and no two of them have one identifier. -/
theorem Indexed.ascending (h : c.Indexed) : c.list.Pairwise fun a b => a.id < b.id := by
  have sorted : c.list.Pairwise fun a b => RuleId.le a.id b.id = true :=
    pairwise_sortBy (fun a b => by simp [RuleId.le]; omega)
      (fun a b d => by simp [RuleId.le]; omega) _
  have distinct : c.list.Pairwise fun a b => a.id ≠ b.id := List.pairwise_map.mp h.nodup_ids
  refine (sorted.and distinct).imp fun {a b} both => ?_
  have le : a.id.toNat ≤ b.id.toNat := of_decide_eq_true both.1
  have ne : a.id.toNat ≠ b.id.toNat := fun same => both.2 (RuleId.toNat_inj.mp same)
  exact RuleId.lt_iff.mpr (by omega)

/-! ## Exact catalogues -/

/-- The catalogue is consistent, every name of the index belongs to a row, and versions count from
one to at most `count`. -/
structure Exact (c : Catalog) (count : Nat) : Prop extends c.Consistent where
  owned : ∀ name id, Assoc.get? name c.names = some id →
    ∃ e, c.get? id = some e ∧ e.rule.name = name
  versions : ∀ e ∈ c.list, 1 ≤ e.version ∧ e.version ≤ count

namespace Exact

theorem empty : ({} : Catalog).Exact 0 where
  toConsistent := .empty
  owned _ _ h := by cases h
  versions := by simp [mem_list_iff]

theorem mono (h : c.Exact count) : c.Exact (count + 1) where
  toConsistent := h.toConsistent
  owned := h.owned
  versions e he := ⟨(h.versions e he).1, (h.versions e he).2.trans (Nat.le_succ _)⟩

/-- A name leads to a rule exactly if that rule has a row of this name. -/
theorem index_iff (h : c.Exact count) :
    Assoc.get? name c.names = some id ↔ ∃ e, c.get? id = some e ∧ e.rule.name = name := by
  refine ⟨h.owned name id, ?_⟩
  rintro ⟨e, found, rfl⟩
  obtain ⟨he, rfl⟩ := h.indexed.get?_eq_some.mp found
  exact h.names e he

theorem eq_of_name_eq (h : c.Exact count) {a b : Entry} (ha : a ∈ c.list) (hb : b ∈ c.list)
    (same : a.rule.name = b.rule.name) : a = b :=
  h.indexed.eq_of_id_eq ha hb (h.id_eq_of_name ha (h.names b hb) same)

/-- A row can be put in place if the names that the index then has are its own or led to other
rows before. -/
theorem put (h : c.Exact count) (hr : c'.rows = Assoc.put e.id e c.rows)
    (consistent : c'.Consistent) (version : 1 ≤ e.version ∧ e.version ≤ count + 1)
    (named : ∀ name id, Assoc.get? name c'.names = some id →
      e.id = id ∧ e.rule.name = name ∨ e.id ≠ id ∧ Assoc.get? name c.names = some id) :
    c'.Exact (count + 1) where
  toConsistent := consistent
  owned name id hname := by
    rw [get?_of_put hr]
    rcases named name id hname with ⟨same, rfl⟩ | ⟨other, hname⟩
    · exact ⟨e, if_pos same, rfl⟩
    · rw [if_neg other]
      exact h.owned name id hname
  versions x hx := by
    rcases (h.indexed.mem_list_put hr).mp hx with rfl | ⟨hx, -⟩
    · exact version
    · exact h.mono.versions x hx

theorem insert (h : c.Exact count) (e : Entry) : (c.insert e).2.Exact (count + 1) := by
  have consistent := h.toConsistent.insert e
  rcases c.insert_cases e with ⟨failure, unchanged⟩ | ⟨c', inserted, -, fresh, -, hrows, hnames, -⟩
  · rw [unchanged]
    exact h.mono
  · rw [inserted] at consistent ⊢
    refine h.put (e := { e with version := 1 }) hrows consistent ⟨le_rfl, by simp⟩ ?_
    intro name id hname
    rw [hnames, Assoc.get?_put] at hname
    split at hname
    · next same => exact .inl ⟨Option.some.inj hname, same⟩
    -- The identifier was free, so no name led to it.
    · refine .inr ⟨?_, hname⟩
      rintro rfl
      obtain ⟨x, found, -⟩ := h.owned name _ hname
      rw [Entry.id_version, fresh] at found
      cases found

theorem replace (h : c.Exact count) (e : Entry) (expected : Nat) :
    (c.replace e expected).2.Exact (count + 1) := by
  have consistent := h.toConsistent.replace e expected
  rcases c.replace_cases e expected
    with ⟨failure, unchanged⟩ |
      ⟨current, c', replaced, -, found, rfl, -, hrows, hnames, -⟩
  · rw [unchanged]
    exact h.mono
  · rw [replaced] at consistent ⊢
    have version := h.versions current (h.indexed.get?_eq_some.mp found).1
    refine h.put (e := { e with version := current.version + 1 }) hrows consistent
      ⟨by simp, by simpa using version.2⟩ fun name id hname => ?_
    rw [hnames] at hname
    split at hname
    · next same_name =>
      by_cases same : e.id = id
      · subst same
        refine .inl ⟨rfl, ?_⟩
        obtain ⟨x, hx, named⟩ := h.owned name _ hname
        rw [found] at hx
        rw [← named, ← Option.some.inj hx]
        exact same_name.symm
      · exact .inr ⟨same, hname⟩
    -- The old name is free again, and the new one leads to the row.
    · rw [Assoc.get?_erase] at hname
      split at hname
      · cases hname
      · next not_old =>
        rw [Assoc.get?_put] at hname
        split at hname
        · next new => exact .inl ⟨Option.some.inj hname, new⟩
        · refine .inr ⟨?_, hname⟩
          rintro rfl
          obtain ⟨x, hx, named⟩ := h.owned name _ hname
          rw [Entry.id_version, found] at hx
          rw [Option.some.inj hx] at not_old
          exact not_old named

theorem remove (h : c.Exact count) (id : RuleId) : (c.remove id).2.Exact (count + 1) := by
  have consistent := h.toConsistent.remove id
  rcases c.remove_cases id
    with ⟨failure, unchanged⟩ | ⟨current, c', removed, found, hrows, hnames⟩
  · rw [unchanged]
    exact h.mono
  · rw [removed] at consistent ⊢
    refine ⟨consistent, fun name other hname => ?_, fun x hx => ?_⟩
    · rw [hnames, Assoc.get?_erase] at hname
      split at hname
      · cases hname
      · next not_current =>
        obtain ⟨x, hx, named⟩ := h.owned name other hname
        refine ⟨x, ?_, named⟩
        rw [get?_of_erase hrows, if_neg, hx]
        rintro rfl
        rw [found] at hx
        rw [Option.some.inj hx] at not_current
        exact not_current named
    · exact h.mono.versions x ((h.indexed.mem_list_erase hrows).mp hx).1

/-- A change in place that leaves the definition of a row alone and counts it up. -/
theorem modify (h : c.Exact count) (id : RuleId) {f : Entry → Entry}
    (same : ∀ e, (f e).definition = e.definition) (counts : ∀ e, (f e).version = e.version + 1) :
    (c.modify id f).2.Exact (count + 1) := by
  have consistent := h.toConsistent.modify id same
  rcases c.modify_cases id f with ⟨unchanged, -⟩ | ⟨current, c', changed, found, hrows, hnames⟩
  · rw [unchanged]
    exact h.mono
  · rw [changed] at consistent ⊢
    obtain ⟨hcurrent, rfl⟩ := h.indexed.get?_eq_some.mp found
    have same_id : (f current).id = current.id := by
      rw [← Entry.definition_id, same, Entry.definition_id]
    have same_name : (f current).rule.name = current.rule.name := by
      rw [← Entry.definition_name, same, Entry.definition_name]
    have version := h.versions current hcurrent
    refine h.put (e := f current) (by rw [same_id]; exact hrows) consistent
      (by rw [counts]; exact ⟨Nat.le_add_left .., Nat.succ_le_succ version.2⟩)
      fun name id hname => ?_
    rw [hnames] at hname
    rw [same_id, same_name]
    by_cases here : current.id = id
    · subst here
      refine .inl ⟨rfl, ?_⟩
      obtain ⟨x, hx, named⟩ := h.owned name _ hname
      rw [found] at hx
      rw [← named, Option.some.inj hx]
    · exact .inr ⟨here, hname⟩

/-- A change keeps a catalogue exact, whether it fails or not. -/
theorem change (h : c.Exact count) (x : Change) : (c.change x).2.Exact (count + 1) := by
  cases x with
  | insert e => exact h.insert e
  | replace e expected => exact h.replace e expected
  | remove id => exact h.remove id
  | recordRefresh id refresh => exact h.modify id (fun _ => rfl) fun _ => rfl
  | recordRun id last next => exact h.modify id (fun _ => rfl) fun _ => rfl

/-- After any changes of an empty catalogue. -/
theorem after (changes : List Change) : (after changes).Exact changes.length := by
  induction changes using List.reverseRecOn with
  | nil => exact .empty
  | append_singleton changes x ih =>
    rw [after_append_singleton, List.length_append]
    exact ih.change x

end Exact

/-- Whatever changes are asked of an empty catalogue: its name index is the inverse of its rows, so
that names are unique; each row is valid and stored under its own identifier, with a version between
one and the number of changes; the rows are listed in ascending order; and a change that fails
leaves rows and names as they were. -/
theorem after_exact (changes : List Change) :
    (∀ name id, Assoc.get? name (after changes).names = some id ↔
        ∃ e, (after changes).get? id = some e ∧ e.rule.name = name) ∧
      (∀ a ∈ (after changes).list, ∀ b ∈ (after changes).list,
        a.rule.name = b.rule.name → a = b) ∧
      (∀ id e, (after changes).get? id = some e →
        e.id = id ∧ e.validate = .ok () ∧ 1 ≤ e.version ∧ e.version ≤ changes.length) ∧
      ((after changes).list.Pairwise fun a b => a.id < b.id) ∧
      (∀ e, e ∈ (after changes).list ↔ (after changes).get? e.id = some e) ∧
      ∀ x failure, ((after changes).change x).1 = .error failure →
        ((after changes).change x).2 = after changes := by
  have exact_after : (after changes).Exact changes.length := .after changes
  have indexed := exact_after.indexed
  refine ⟨fun name id => exact_after.index_iff,
    fun a ha b hb same => exact_after.eq_of_name_eq ha hb same, fun id e found => ?_,
    indexed.ascending, fun e => indexed.mem_list, fun x failure h => change_of_error h⟩
  obtain ⟨he, hid⟩ := indexed.get?_eq_some.mp found
  exact ⟨hid, exact_after.valid e he, exact_after.versions e he⟩

private def plainEntry (id : Nat) (name : String) : Entry where
  rule :=
    { id := .ofNat id, name, description := none, conditions := [], declared := [],
      dependencies := none, operation := none, active := true, schedule := .daily,
      nextRunAt := none, lastRunAt := none, createdAt := ⟨0, 0⟩, updatedAt := ⟨0, 0⟩ }
  segment :=
    { ruleId := .ofNat id, name, table := name, source := .base ⟨"", [], []⟩, rowCount := 0,
      lastRefreshedAt := none, dataAsOf := none, createdAt := ⟨0, 0⟩ }
  version := 0

private def renamedRows : List Change :=
  [.insert (plainEntry 1 "first"), .replace (plainEntry 1 "renamed") 1,
    .replace (plainEntry 1 "first") 1, .insert (plainEntry 2 "first")]

/-- A rule is renamed and its old name goes to another rule. The new name is taken then, and a row
that asks for it is refused without a trace, as is a second row of an identifier. -/
theorem after_exact_renamed :
    ((after renamedRows).change (.insert (plainEntry 3 "renamed"))).1 =
        .error (.nameTaken "renamed") ∧
      ((after renamedRows).change (.insert (plainEntry 3 "renamed"))).2 = after renamedRows ∧
      ((after renamedRows).change (.insert (plainEntry 1 "third"))).1 =
        .error (.catalog (.alreadyExists (.ofNat 1))) ∧
      ((after renamedRows).change (.insert (plainEntry 1 "third"))).2 = after renamedRows := by
  have unchanged := (after_exact renamedRows).2.2.2.2.2
  have name_taken : ((after renamedRows).change (.insert (plainEntry 3 "renamed"))).1 =
      .error (.nameTaken "renamed") := by decide +kernel
  have id_taken : ((after renamedRows).change (.insert (plainEntry 1 "third"))).1 =
      .error (.catalog (.alreadyExists (.ofNat 1))) := by decide +kernel
  exact ⟨name_taken, unchanged _ _ name_taken, id_taken, unchanged _ _ id_taken⟩

end Cohort.Catalog
