import Cohort.Proofs.Run.Provenance

/-!
# What runs leave alone

Runs touch the rows and the tables of some rules. Of these rows they change no more than what a
refresh writes down, and all other rows and tables stay as they are. This is said here of two
states, so that it can be put together along a run.

## Main definitions

* `Entry.unrefreshed` — an entry without what a refresh leaves behind
* `SameData`, `Still` — no row and no table has changed, and nothing was told
* `Keeps` — the rows and tables of all but some rules have stayed as they are

## Main results

* `Keeps.trans` — what was touched one after the other
* `Keeps.untouched` — where no two rows have one table
-/

namespace Cohort

/-! ## Rows but for refreshes -/

/-- The entry without what a refresh leaves behind. -/
def Entry.unrefreshed (e : Entry) : Entry :=
  { e with
    segment := { e.segment with rowCount := 0, lastRefreshedAt := none, dataAsOf := none }
    version := 0 }

/-- The catalogues have the same rows but for their row counts, the times of their refreshes and
their versions. -/
def Catalog.SameButRefreshed (c c' : Catalog) : Prop :=
  ∀ id, (c'.get? id).map Entry.unrefreshed = (c.get? id).map Entry.unrefreshed

variable {c c' c'' : Catalog} {e e' : Entry} {id : RuleId} {s s' s'' : State}

theorem Entry.unrefreshed_refreshed (e : Entry) (r : Refresh) :
    (e.refreshed r).unrefreshed = e.unrefreshed := rfl

theorem Entry.definition_unrefreshed (e : Entry) : e.unrefreshed.definition = e.definition := rfl

@[simp] theorem Entry.rule_unrefreshed (e : Entry) : e.unrefreshed.rule = e.rule := rfl

theorem Entry.rule_eq_of_unrefreshed (alike : e'.unrefreshed = e.unrefreshed) :
    e'.rule = e.rule := by
  rw [← rule_unrefreshed, alike, rule_unrefreshed]

theorem Entry.unrefreshed_ran (alike : e'.unrefreshed = e.unrefreshed) (last next : Instant) :
    (e'.ran last next).unrefreshed = (e.ran last next).unrefreshed := by
  change (e'.unrefreshed.ran last next).unrefreshed = (e.unrefreshed.ran last next).unrefreshed
  rw [alike]

namespace Catalog.SameButRefreshed

theorem refl (c : Catalog) : c.SameButRefreshed c := fun _ => rfl

theorem trans (h : c.SameButRefreshed c') (h' : c'.SameButRefreshed c'') :
    c.SameButRefreshed c'' := fun id => (h' id).trans (h id)

theorem sameDefinitions (h : c.SameButRefreshed c') : c.SameDefinitions c' := fun id => by
  have same := congrArg (Option.map Entry.definition) (h id)
  simpa only [Option.map_map, Function.comp_def, Entry.definition_unrefreshed] using same

end Catalog.SameButRefreshed

theorem Catalog.SameDefinitions.table (h : c.SameDefinitions c') (found : c.get? id = some e)
    (found' : c'.get? id = some e') : e'.segment.table = e.segment.table := by
  have same := h id
  rw [found, found', Option.map_some, Option.map_some] at same
  rw [← e'.definition_table, Option.some.inj same, e.definition_table]

/-- Which tables the rows name is a matter of definitions alone. -/
theorem Catalog.TablesDistinct.of_sameDefinitions (h : c.TablesDistinct) (indexed : c.Indexed)
    (indexed' : c'.Indexed) (same : c.SameDefinitions c') : c'.TablesDistinct := by
  intro e₁ he₁ e₂ he₂ same_table
  obtain ⟨d₁, hd₁, same₁⟩ := same.exists_mem indexed indexed' he₁
  obtain ⟨d₂, hd₂, same₂⟩ := same.exists_mem indexed indexed' he₂
  rw [← e₁.definition_table, ← e₂.definition_table, ← same₁, ← same₂] at same_table
  rw [← e₁.definition_id, ← e₂.definition_id, ← same₁, ← same₂]
  exact h d₁ hd₁ d₂ hd₂ same_table

/-- A refresh is written into a row. -/
theorem Catalog.SameButRefreshed.of_put {r : Refresh} (found : c.get? id = some e)
    (rows : c'.rows = Assoc.put id (e.refreshed r) c.rows) : c.SameButRefreshed c' := by
  intro a
  rw [get?_of_put_at rows]
  split
  · next same => rw [← same, found, Option.map_some, Option.map_some, e.unrefreshed_refreshed]
  · rfl

theorem Catalog.Indexed.put_refreshed {r : Refresh} (h : c.Indexed) (found : c.get? id = some e)
    (rows : c'.rows = Assoc.put id (e.refreshed r) c.rows) : c'.Indexed := by
  have same_id : e.id = id := h.id_of_get? found
  refine h.put (e := e.refreshed r) (rows.trans ?_)
  rw [← same_id]
  rfl

/-! ## Rows and tables -/

/-- The rows and the data of the engine are the same. -/
structure SameData (s s' : State) : Prop where
  catalog : s'.catalog = s.catalog
  tables : s'.engine.tables = s.engine.tables
  transactions : s'.engine.transactions = s.engine.transactions

/-- No row has changed, nor the data of the engine, and nothing was told. -/
structure Still (s s' : State) : Prop extends SameData s s' where
  log : s'.log = s.log

namespace SameData

theorem refl (s : State) : SameData s s := ⟨rfl, rfl, rfl⟩

theorem trans (h : SameData s s') (h' : SameData s' s'') : SameData s s'' :=
  ⟨h'.catalog.trans h.catalog, h'.tables.trans h.tables, h'.transactions.trans h.transactions⟩

theorem symm (h : SameData s s') : SameData s' s :=
  ⟨h.catalog.symm, h.tables.symm, h.transactions.symm⟩

theorem table? (h : SameData s s') (name : String) :
    s'.engine.table? name = s.engine.table? name := by
  rw [Engine.table?, h.tables, Engine.table?]

theorem tableOf (h : SameData s s') : s'.tableOf = s.tableOf := by
  funext id
  simp only [State.tableOf, h.catalog, h.table?]

end SameData

namespace Still

theorem refl (s : State) : Still s s := ⟨.refl s, rfl⟩

theorem trans (h : Still s s') (h' : Still s' s'') : Still s s'' :=
  ⟨h.toSameData.trans h'.toSameData, h'.log.trans h.log⟩

end Still

/-- The request changes no row and no data of the engine, and it tells nothing. -/
def Request.isStill : Request → Bool
  | .emit _ => false
  | r => r.leavesData

theorem State.perform_sameData {r : Request} (h : r.leavesData = true) (s : State) :
    SameData s (s.perform r).2 := by
  refine ⟨s.perform_catalog (Request.leavesCatalog_of_leavesData h),
    s.perform_tables (Request.leavesTables_of_leavesData h), ?_⟩
  cases r <;> first | rfl | cases h

theorem State.perform_still {r : Request} (h : r.isStill = true) (s : State) :
    Still s (s.perform r).2 := by
  refine ⟨s.perform_sameData ?_, ?_⟩
  all_goals cases r <;> first | rfl | cases h

/-- A refresh is written into the row of a rule, or the catalogue refuses this and nothing changes.
-/
theorem State.perform_recordRefresh_cases (found : s.catalog.get? id = some e) (r : Refresh) :
    (∃ cause, (s.perform (.recordRefresh id r)).1 = .error cause ∧
      Still s (s.perform (.recordRefresh id r)).2) ∨
    (s.perform (.recordRefresh id r)).1 = .ok () ∧
      (s.perform (.recordRefresh id r)).2.catalog.rows =
        Assoc.put id (e.refreshed r) s.catalog.rows ∧
      (s.perform (.recordRefresh id r)).2.engine = s.engine ∧
      (s.perform (.recordRefresh id r)).2.log = s.log := by
  have written : s.catalog.recordRefresh id r = (.ok (),
      { s.catalog with rows := Assoc.put id (e.refreshed r) s.catalog.rows }) := by
    simp only [Catalog.recordRefresh, Catalog.modify, found]
  rw [State.perform, State.recordRefresh, written]
  split
  · exact .inl ⟨_, rfl, ⟨rfl, rfl, rfl⟩, rfl⟩
  · exact .inr ⟨rfl, rfl, rfl, rfl⟩

/-- The same, whether the rule has a row or not. -/
theorem State.perform_recordRefresh_outcome (s : State) (id : RuleId) (r : Refresh) :
    (∃ cause, (s.perform (.recordRefresh id r)).1 = .error cause ∧
      Still s (s.perform (.recordRefresh id r)).2) ∨
    (s.perform (.recordRefresh id r)).1 = .ok () ∧ ∃ e, s.catalog.get? id = some e ∧
      (s.perform (.recordRefresh id r)).2.catalog.rows =
        Assoc.put id (e.refreshed r) s.catalog.rows := by
  cases found : s.catalog.get? id with
  | none =>
    have refused : s.catalog.recordRefresh id r = (.error (.ruleNotFound id), s.catalog) := by
      simp only [Catalog.recordRefresh, Catalog.modify, found]
    left
    rw [perform, recordRefresh, refused]
    split <;> exact ⟨_, rfl, ⟨rfl, rfl, rfl⟩, rfl⟩
  | some e =>
    rcases State.perform_recordRefresh_cases found r with failed | ⟨done, rows, -, -⟩
    · exact .inl failed
    · exact .inr ⟨done, e, rfl, rows⟩

/-- Between two states, some rules may have been touched. No row is new or gone, and of the rows
only that has changed which refreshes leave behind. All other rows are the same, and so are all
tables but those of the rules that may have been touched. -/
structure Keeps (touched : RuleId → Prop) (s s' : State) : Prop where
  indexed : s.catalog.Indexed → s'.catalog.Indexed
  rows : s.catalog.SameButRefreshed s'.catalog
  others : ∀ id, ¬ touched id → s'.catalog.get? id = s.catalog.get? id
  tables : ∀ name, (∀ id e, touched id → s.catalog.get? id = some e → e.segment.table ≠ name) →
    s'.engine.table? name = s.engine.table? name
  transactions : s'.engine.transactions = s.engine.transactions

variable {touched touched' : RuleId → Prop}

theorem SameData.untouched (h : SameData s s') (id : RuleId) : Untouched s s' id :=
  ⟨by rw [h.catalog], fun _ _ => h.table? _⟩

theorem Untouched.tableOf (h : Untouched s s' id) : s'.tableOf id = s.tableOf id := by
  simp only [State.tableOf, h.1]
  cases found : s.catalog.get? id with
  | none => rfl
  | some e => rw [Option.bind_some, Option.bind_some, h.2 e found]

theorem SameData.keeps (h : SameData s s') : Keeps touched s s' where
  indexed indexed := h.catalog ▸ indexed
  rows := h.catalog ▸ .refl _
  others _ _ := by rw [h.catalog]
  tables _ _ := h.table? _
  transactions := h.transactions

namespace Keeps

theorem mono (h : Keeps touched s s') (weaker : ∀ id, touched id → touched' id) :
    Keeps touched' s s' :=
  { h with
    others := fun id other => h.others id fun hid => other (weaker id hid)
    tables := fun name apart => h.tables name fun id e hid => apart id e (weaker id hid) }

/-- What was touched first and what was touched then. -/
theorem trans (h : Keeps touched s s') (h' : Keeps touched s' s'') : Keeps touched s s'' where
  indexed indexed := h'.indexed (h.indexed indexed)
  rows := h.rows.trans h'.rows
  others id other := (h'.others id other).trans (h.others id other)
  tables name apart := by
    refine (h'.tables name fun id e' hid found' => ?_).trans (h.tables name apart)
    -- The row has changed meanwhile, but not its table.
    obtain ⟨e, found, -⟩ := h.rows.sameDefinitions.exists_get? found'
    rw [h.rows.sameDefinitions.table found found']
    exact apart id e hid found
  transactions := h'.transactions.trans h.transactions

/-- Where no two rows have one table, a rule that is not touched keeps its row and its table. -/
theorem untouched (h : Keeps touched s s') (indexed : s.catalog.Indexed)
    (distinct : s.catalog.TablesDistinct) (other : ¬ touched id) : Untouched s s' id := by
  refine ⟨h.others id other, fun e found => h.tables _ fun a e' ha found' same => other ?_⟩
  obtain ⟨listed, rfl⟩ := indexed.get?_eq_some.mp found
  obtain ⟨listed', rfl⟩ := indexed.get?_eq_some.mp found'
  rwa [distinct e listed e' listed' same.symm]

theorem tablesDistinct (h : Keeps touched s s') (indexed : s.catalog.Indexed)
    (distinct : s.catalog.TablesDistinct) : s'.catalog.TablesDistinct :=
  distinct.of_sameDefinitions indexed (h.indexed indexed) h.rows.sameDefinitions

end Keeps

end Cohort
