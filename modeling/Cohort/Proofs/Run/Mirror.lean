import Cohort.Proofs.Catalog.Rows
import Cohort.Proofs.Engine.Datasets
import Cohort.Proofs.Program.Interference
import Cohort.Proofs.Run.Requests
import Cohort.Proofs.Text.Digits
import Cohort.Scheduler

/-!
# Rows that mirror tables

The row of a rule says when its table was written and how many rows it has. A run writes the table
first and the row after it, so that for a moment the row is behind. At all other times every row
mirrors its table, whether the runs of a rule and of its operands succeed or fail, and whatever
else changes meanwhile.

## Main definitions

* `Entry.Mirrors` — the row says whether there is a table, and how many rows this has
* `Stored.Mirrored` — all rows mirror their tables, except for one that can be apart
* `Mirroring` — all rows mirror their tables, and no row has gone

## Main results

* `Stored.Mirrored.putRow`, `Stored.Mirrored.eraseRow` — rows after a change
* `Stored.Mirrored.changeTable` — tables after a change
* `runRule_mirrors` — a run leaves rows that mirror their tables
* `runPass_mirrors`, `manualRun_mirrors` — passes and manual runs do
-/

namespace Cohort

open Cohort.Action

theorem Settings.Naming.tableName_injective (naming : Settings.Naming) :
    Function.Injective naming.tableName := fun _ _ same =>
  RuleId.text_injective (String.append_right_inj _ |>.mp same)

/-- The table is there just if the row was refreshed, and the row has its number of rows. -/
structure Entry.Mirrors (e : Entry) (tables : List (String × Dataset)) : Prop where
  written : e.segment.isMaterialized = (Assoc.get? e.segment.table tables).isSome
  count : ∀ rows, Assoc.get? e.segment.table tables = some rows → e.segment.rowCount = rows.length

/-- The segments are the same but for their sources. -/
structure Segment.SameTable (a b : Segment) : Prop where
  table : a.table = b.table
  rowCount : a.rowCount = b.rowCount
  lastRefreshedAt : a.lastRefreshedAt = b.lastRefreshedAt

/-- All rows mirror their tables, except for the row that is `apart`. Tables are named after the
rules that have rows, and each is a set of users. -/
structure Stored.Mirrored (naming : Settings.Naming) (apart : Option RuleId) (k : Stored) :
    Prop where
  indexed : k.catalog.Indexed
  faultless : k.faults = {}
  named : ∀ id e, k.catalog.get? id = some e → e.segment.table = naming.tableName id
  mirrors : ∀ id e, k.catalog.get? id = some e → apart ≠ some id → e.Mirrors k.tables
  owned : ∀ name rows, Assoc.get? name k.tables = some rows →
    rows.IsSet ∧ ∃ id, (k.catalog.get? id).isSome = true ∧ naming.tableName id = name

variable {setup : Setup} {naming : Settings.Naming} {k k' : Stored} {c : Catalog} {e e' : Entry}
  {id : RuleId} {apart : Option RuleId} {rows : Dataset} {running refreshed : List RuleId}
  {nested : NestedRun} {P : Stored → Prop}

/-- Of a row, its table, its number of rows and the time of its refresh matter. -/
theorem Entry.Mirrors.of_same {tables : List (String × Dataset)} (h : e.Mirrors tables)
    (same : e'.segment.SameTable e.segment) : e'.Mirrors tables where
  written := by
    rw [Segment.isMaterialized, same.lastRefreshedAt, same.table]
    exact h.written
  count := by
    rw [same.rowCount, same.table]
    exact h.count

/-! ## Changes of rows and tables -/

namespace Stored.Mirrored

theorem setApart (h : k.Mirrored naming none) (id : RuleId) : k.Mirrored naming (some id) :=
  { h with mirrors := fun a e found _ => h.mirrors a e found nofun }

/-- Only the rows of the catalogue matter. -/
theorem of_rows_eq (h : k.Mirrored naming apart) (rows : k'.catalog.rows = k.catalog.rows)
    (tables : k'.tables = k.tables) (faults : k'.faults = k.faults) :
    k'.Mirrored naming apart := by
  have same : k'.catalog.get? = k.catalog.get? := by
    funext id
    rw [Catalog.get?, Catalog.get?, rows]
  exact
    { indexed := ⟨rows ▸ h.indexed.keyed, rows ▸ h.indexed.distinct⟩
      faultless := faults.trans h.faultless
      named := same ▸ h.named
      mirrors := same ▸ tables ▸ h.mirrors
      owned := same ▸ tables ▸ h.owned }

/-- The table of a rule without a row is not there. -/
theorem get?_eq_none (h : k.Mirrored naming apart) (missing : k.catalog.get? id = none) :
    Assoc.get? (naming.tableName id) k.tables = none := by
  rw [Option.eq_none_iff_forall_not_mem]
  intro rows found
  obtain ⟨-, a, present, same⟩ := h.owned _ rows found
  obtain rfl := naming.tableName_injective same
  rw [missing] at present
  cases present

/-- A row is put in place that mirrors its table. -/
theorem putRow (h : k.Mirrored naming (some e.id))
    (rows : k'.catalog.rows = Assoc.put e.id e k.catalog.rows) (tables : k'.tables = k.tables)
    (faults : k'.faults = k.faults) (named : e.segment.table = naming.tableName e.id)
    (mirrors : e.Mirrors k.tables) : k'.Mirrored naming none where
  indexed := h.indexed.put rows
  faultless := faults.trans h.faultless
  named id x found := by
    rw [Catalog.get?_of_put rows] at found
    split at found
    · next same =>
      obtain rfl := Option.some.inj found
      rw [named, same]
    · exact h.named id x found
  mirrors id x found _ := by
    rw [tables]
    rw [Catalog.get?_of_put rows] at found
    split at found
    · obtain rfl := Option.some.inj found
      exact mirrors
    · next other => exact h.mirrors id x found fun same => other (Option.some.inj same)
  owned name d found := by
    rw [tables] at found
    obtain ⟨set, id, present, same⟩ := h.owned name d found
    refine ⟨set, id, ?_, same⟩
    rw [Catalog.get?_of_put rows]
    split
    · rfl
    · exact present

/-- A row without a table is taken out. -/
theorem eraseRow (h : k.Mirrored naming (some id))
    (missing : Assoc.get? (naming.tableName id) k.tables = none)
    (rows : k'.catalog.rows = Assoc.erase id k.catalog.rows) (tables : k'.tables = k.tables)
    (faults : k'.faults = k.faults) : k'.Mirrored naming none where
  indexed := h.indexed.erase rows
  faultless := faults.trans h.faultless
  named a x found := by
    rw [Catalog.get?_of_erase rows] at found
    split at found
    · cases found
    · exact h.named a x found
  mirrors a x found _ := by
    rw [tables]
    rw [Catalog.get?_of_erase rows] at found
    split at found
    · cases found
    · next other => exact h.mirrors a x found fun same => other (Option.some.inj same)
  owned name d found := by
    rw [tables] at found
    obtain ⟨set, a, present, same⟩ := h.owned name d found
    refine ⟨set, a, ?_, same⟩
    rw [Catalog.get?_of_erase rows, if_neg]
    · exact present
    · rintro rfl
      rw [← same, missing] at found
      cases found

/-- Only the table of one rule changes, and its row is apart from then on. -/
theorem changeTable {tables : List (String × Dataset)} (h : k.Mirrored naming none)
    (others : ∀ name, naming.tableName id ≠ name →
      Assoc.get? name tables = Assoc.get? name k.tables)
    (own : ∀ rows, Assoc.get? (naming.tableName id) tables = some rows →
      rows.IsSet ∧ (k.catalog.get? id).isSome = true) :
    Stored.Mirrored naming (some id) { k with tables } where
  indexed := h.indexed
  faultless := h.faultless
  named := h.named
  mirrors a x found other := by
    have before := h.mirrors a x found nofun
    have apart : naming.tableName id ≠ x.segment.table := by
      rw [h.named a x found]
      exact fun same => other (congrArg some (naming.tableName_injective same))
    have same := others _ apart
    exact ⟨same ▸ before.written, same ▸ before.count⟩
  owned name d found := by
    by_cases same : naming.tableName id = name
    · subst same
      exact ⟨(own d found).1, id, (own d found).2, rfl⟩
    · exact h.owned name d (others name same ▸ found)

theorem writeTable (h : k.Mirrored naming none) (present : (k.catalog.get? id).isSome = true)
    (set : rows.IsSet) :
    Stored.Mirrored naming (some id)
      { k with tables := Assoc.put (naming.tableName id) rows k.tables } := by
  refine h.changeTable (fun name other => ?_) fun written found => ?_
  · rw [Assoc.get?_put, if_neg other]
  · rw [Assoc.get?_put, if_pos rfl] at found
    obtain rfl := Option.some.inj found
    exact ⟨set, present⟩

theorem dropTable (h : k.Mirrored naming none) (id : RuleId) :
    Stored.Mirrored naming (some id)
      { k with tables := Assoc.erase (naming.tableName id) k.tables } := by
  refine h.changeTable (fun name other => ?_) fun left found => ?_
  · rw [Assoc.get?_erase, if_neg other]
  · rw [Assoc.get?_erase, if_pos rfl] at found
    cases found

end Stored.Mirrored

/-! ## What a run leaves stored -/

/-- All rows mirror their tables, and the rules of a catalogue still have rows. -/
structure Mirroring (naming : Settings.Naming) (c : Catalog) (k : Stored) : Prop where
  mirrored : k.Mirrored naming none
  present : ∀ id, (c.get? id).isSome = true → (k.catalog.get? id).isSome = true

namespace Mirroring

theorem refl (h : k.Mirrored naming none) : Mirroring naming k.catalog k := ⟨h, fun _ => id⟩

/-- What holds for the rules of a later catalogue holds for those of an earlier one. -/
theorem trans (h : Mirroring naming c k) (later : Mirroring naming k.catalog k') :
    Mirroring naming c k' :=
  ⟨later.mirrored, fun id present => later.present id (h.present id present)⟩

/-- A row is put in place of one, so that it mirrors its table. -/
theorem putRow (h : Mirroring naming c k) (found : k.catalog.get? id = some e)
    (same_id : e'.id = e.id) (same : e'.segment.SameTable e.segment)
    (rows : k'.catalog.rows = Assoc.put id e' k.catalog.rows) (tables : k'.tables = k.tables)
    (faults : k'.faults = k.faults) : Mirroring naming c k' := by
  obtain rfl := h.mirrored.indexed.id_of_get? found
  rw [← same_id] at rows
  refine ⟨(h.mirrored.setApart e'.id).putRow rows tables faults ?_ ?_, fun a present => ?_⟩
  · rw [same.table, same_id]
    exact h.mirrored.named _ e found
  · exact (h.mirrored.mirrors _ e found nofun).of_same same
  · rw [Catalog.get?_of_put rows]
    split
    · rfl
    · exact h.present a present

/-- Requests that read, and those that keep the books of a run, keep rows as mirrors. -/
theorem perform {s : State} (h : Mirroring naming c s.stored) {r : Request}
    (kind : r.leavesData = true ∨ r.ofBooks = true) :
    Mirroring naming c (s.perform r).2.stored := by
  by_cases kept : r.leavesData = true
  · rw [s.perform_stored kept]
    exact h
  · cases r <;> simp [Request.leavesData, Request.leavesCatalog, Request.ofBooks] at kept kind
    case recordRun id last next =>
      rw [State.perform_recordRun (by exact h.mirrored.faultless), Catalog.recordRun]
      rcases s.catalog.modify_cases id (fun e => e.ran last next) with
        ⟨unchanged, -⟩ | ⟨current, c', changed, found, rows, -⟩
      · rw [unchanged]
        exact h
      · have same : (current.ran last next).segment.SameTable current.segment := ⟨rfl, rfl, rfl⟩
        have same_id : (current.ran last next).id = current.id := rfl
        rw [changed]
        exact h.putRow found same_id same rows rfl rfl

end Mirroring

/-! ## Computing rows -/

/-- A query ends with the rows of some transactions, or with a failure. -/
theorem runQuery_ensures (q : Query) (h : P k) :
    (runQuery q).Ensures k fun result k' =>
      P k' ∧ ∀ rows, result = .ok rows → (Dataset.dropNull rows).IsSet := by
  unfold runQuery
  refine Program.ensures_bind_kept rfl fun _ => Program.ensures_call.mpr fun s hs => ?_
  rw [s.perform_stored rfl, hs]
  refine ⟨h, fun rows found => ?_⟩
  have answered : s.engine.answer q = .ok rows := found
  unfold Engine.answer at answered
  split at answered
  · cases answered
  · split at answered
    · cases answered
    · obtain rfl := Except.ok.inj answered
      exact q.isSet_dropNull_evaluate _

/-- A computation that can fail leaves stored what holds of both its outcomes. -/
theorem orFail_ensures {α : Type} {p : Program (Except EngineFailure α)}
    {good : α → Stored → Prop} {bad : Stored → Prop}
    (h : p.Ensures k fun result k' =>
      match result with
      | .ok v => good v k'
      | .error _ => bad k') : (orFail id p).Ensures k good bad := by
  unfold orFail
  rw [ensures_check, Program.ensures_bind]
  refine h.mono ?_
  rintro (cause | v) k' hk
  · exact (Program.ensures_pure _).mpr hk
  · exact (Program.ensures_pure _).mpr hk

theorem computeBase_ensures (q : Query) (h : P k) :
    (computeBase id q).Ensures k (fun rows k' => rows.IsSet ∧ P k') P := by
  unfold computeBase
  rw [ensures_bind, ensures_of]
  refine (runQuery_ensures q h).mono fun result k' hk => ?_
  split
  · next rows => exact (ensures_pure _).mpr ⟨hk.2 rows rfl, hk.1⟩
  · exact (ensures_pure _).mpr ⟨Dataset.isSet_nil, hk.1⟩
  · exact (ensures_pure _).mpr ⟨Dataset.isSet_nil, hk.1⟩
  · exact (ensures_throw _).mpr hk.1

theorem loadDependency_ensures (dependency : RuleId) (h : Mirroring naming c k) :
    (loadDependency id dependency).Ensures k
      (fun loaded k' => loaded.1.IsSet ∧ Mirroring naming c k') (Mirroring naming c) := by
  unfold loadDependency
  dsimp only
  rw [ensures_bind]
  refine ensures_getRow ?_
  cases k.catalog.get? dependency with
  | none => exact (ensures_throw _).mpr h
  | some e =>
    dsimp only
    split
    · exact (ensures_throw _).mpr h
    · rw [ensures_bind]
      refine ensures_call.mpr fun s hs => ?_
      rw [s.perform_stored rfl, hs]
      simp only [State.perform, Engine.readTable]
      cases found : s.engine.table? e.segment.table with
      | none => exact (ensures_throw _).mpr h
      | some rows =>
        -- All tables are sets, the table of the dependency among them.
        subst hs
        exact (ensures_pure _).mpr ⟨(h.mirrored.owned _ rows found).1, h⟩

theorem loadDependencies_ensures (dependencies : List RuleId) (h : Mirroring naming c k) :
    (loadDependencies id dependencies).Ensures k
      (fun loaded k' => (∀ rows ∈ loaded.1, rows.IsSet) ∧ Mirroring naming c k')
      (Mirroring naming c) := by
  unfold loadDependencies
  refine (ensures_mapM (fun dependency _ => loadDependency_ensures dependency) dependencies k
    h).bind fun loaded k' hk => ?_
  split
  · exact (ensures_throw _).mpr hk.2
  · exact (ensures_pure _).mpr ⟨List.forall_mem_map.mpr hk.1, hk.2⟩

theorem computeComposite_ensures (dependencies : List RuleId) (operation : SetOperation)
    (residual : Option Query) (h : Mirroring naming c k) :
    (computeComposite id dependencies operation residual).Ensures k
      (fun computed k' => computed.1.IsSet ∧ Mirroring naming c k') (Mirroring naming c) := by
  unfold computeComposite
  refine (loadDependencies_ensures dependencies h).bind ?_
  rintro ⟨operands, oldest⟩ k₁ ⟨sets, h₁⟩
  dsimp only at sets ⊢
  have combines : (orFail id (pure (Dataset.combine operation operands))).Ensures k₁
      (fun combined k' => combined.IsSet ∧ Mirroring naming c k') (Mirroring naming c) := by
    refine orFail_ensures ((Program.ensures_pure _).mpr ?_)
    cases result : Dataset.combine operation operands with
    | error cause => exact h₁
    | ok combined => exact ⟨.combine sets result, h₁⟩
  refine combines.bind fun combined k₂ hk => ?_
  split
  · exact (ensures_pure _).mpr hk
  · next q _ =>
    refine (orFail_ensures ((runQuery_ensures q hk.2).mono ?_)).bind
      fun narrowed k₃ hk₃ => (ensures_pure _).mpr ⟨hk.1.intersect _, hk₃⟩
    rintro (cause | narrowed) k₃ hk₃
    · exact hk₃.1
    · exact hk₃.1

/-! ## Runs -/

/-- Whether it succeeds or fails, a run leaves rows that mirror their tables. -/
def NestedRun.Mirrors (nested : NestedRun) (naming : Settings.Naming) : Prop :=
  ∀ c running refreshed id k, Mirroring naming c k →
    (nested running refreshed id).Ensures k (fun _ => Mirroring naming c) (Mirroring naming c)

theorem refreshLocked_mirrors {dependency : RuleId} {seen : Entry} (mirrors : nested.Mirrors naming)
    (h : Mirroring naming c k) :
    (refreshLocked nested running id dependency seen refreshed).Ensures k
      (fun _ => Mirroring naming c) (Mirroring naming c) := by
  unfold refreshLocked
  rw [ensures_bind]
  refine ensures_getRow ?_
  split
  · exact (ensures_pure _).mpr h
  · split
    · exact (ensures_pure _).mpr h
    · rw [ensures_bind, ensures_of]
      refine (mirrors c running refreshed dependency k h).outcome (fun result k₁ h₁ => ?_)
        fun cause k₁ h₁ => ?_
      · exact (ensures_pure _).mpr h₁
      · exact (ensures_throw _).mpr h₁

theorem refreshDependency_mirrors {dependency : RuleId} {now : Instant}
    (mirrors : nested.Mirrors naming) (h : Mirroring naming c k) :
    (refreshDependency nested running id now refreshed dependency).Ensures k
      (fun _ => Mirroring naming c) (Mirroring naming c) := by
  unfold refreshDependency
  split
  · exact (ensures_pure _).mpr h
  · rw [ensures_bind]
    refine ensures_getRow ?_
    split
    · exact (ensures_pure _).mpr h
    · split
      · exact (ensures_pure _).mpr h
      · split
        · exact refreshLocked_mirrors mirrors h
        · refine ensures_bind_kept rfl fun _ => ?_
          rw [ensures_bind, ensures_of]
          -- The lock is given back whether or not the run has succeeded.
          have unlocked : ∀ (outcome : Except Failure (List RuleId)) (k₁ : Stored),
              Mirroring naming c k₁ →
              (Action.call (.unlock dependency) >>= fun _ => Action.check (pure outcome)).Ensures
                k₁ (fun _ => Mirroring naming c) (Mirroring naming c) := by
            intro outcome k₁ h₁
            refine ensures_bind_kept rfl fun _ => ?_
            rw [ensures_check, Program.ensures_pure]
            cases outcome <;> exact h₁
          exact (refreshLocked_mirrors mirrors h).outcome (fun _ k₁ => unlocked _ k₁)
            fun _ k₁ => unlocked _ k₁

theorem refreshDependencies_mirrors (dependencies : List RuleId) (mirrors : nested.Mirrors naming)
    (h : Mirroring naming c k) :
    (refreshDependencies nested running id dependencies refreshed).Ensures k
      (fun _ => Mirroring naming c) (Mirroring naming c) := by
  unfold refreshDependencies
  refine ensures_bind_kept rfl fun now => ?_
  exact ensures_foldlM (fun refreshed' d _ => refreshDependency_mirrors mirrors) dependencies
    refreshed k h

theorem compute_mirrors {started : Instant} (mirrors : nested.Mirrors naming)
    (h : Mirroring naming c k) :
    (compute setup nested running refreshed e started).Ensures k
      (fun computed k' => computed.1.IsSet ∧ Mirroring naming c k') (Mirroring naming c) := by
  unfold compute
  split
  · exact (computeBase_ensures _ h).bind fun rows k₁ h₁ => (ensures_pure _).mpr h₁
  · next dependencies operation residual _ =>
    have combines : ∀ (refreshed' : List RuleId) (k₁ : Stored), Mirroring naming c k₁ →
        (computeComposite e.id dependencies operation residual >>= fun result =>
          pure (result.1, result.2, refreshed') : Action (Dataset × Instant × List RuleId)).Ensures
            k₁ (fun computed k' => computed.1.IsSet ∧ Mirroring naming c k')
            (Mirroring naming c) := by
      intro refreshed' k₁ h₁
      exact (computeComposite_ensures dependencies operation residual h₁).bind
        fun computed k₂ h₂ => (ensures_pure _).mpr h₂
    split
    · exact (refreshDependencies_mirrors dependencies mirrors h).bind combines
    · exact combines refreshed k h

/-- A table is written in full or not at all. -/
theorem writeTable_ensures (table : String) (rows : Dataset) (h : P k) :
    (orFail id (Program.call (.writeTable table rows))).Ensures k
      (fun count k' => count = rows.length ∧
        k' = { k with tables := Assoc.put table rows k.tables }) P := by
  refine orFail_ensures (Program.ensures_call.mpr ?_)
  rintro s rfl
  by_cases refused : s.engine.failingWrites.contains table = true
  · simp only [State.perform, Engine.writeTable, if_pos refused]
    exact h
  · simp only [State.perform, Engine.writeTable, if_neg refused]
    exact ⟨trivial, rfl⟩

/-- Metadata is written at once, and then the row mirrors the table that was written before. -/
theorem writeMetadata_mirrors {refresh : Refresh} (more : Nat)
    (h : k.Mirrored naming (some id)) (present : (k.catalog.get? id).isSome = true)
    (table : Assoc.get? (naming.tableName id) k.tables = some rows)
    (count : refresh.rowCount = rows.length) :
    (writeMetadata id refresh more).Ensures k
      (fun _ => Mirroring naming k.catalog) fun _ => False := by
  obtain ⟨e, found⟩ := Option.isSome_iff_exists.mp present
  have recorded : ∀ s : State, s.stored = k → ∃ s' : State,
      s.perform (.recordRefresh id refresh) = (.ok (), s') ∧
        Mirroring naming k.catalog s'.stored := by
    rintro s rfl
    have faultless : s.faults = {} := h.faultless
    have stored : s.catalog.get? id = some e := found
    have performed : s.perform (.recordRefresh id refresh) = (.ok (),
        { s with
          catalog :=
            { s.catalog with rows := Assoc.put id (e.refreshed refresh) s.catalog.rows } }) := by
      simp only [State.perform_recordRefresh faultless, Catalog.recordRefresh, Catalog.modify,
        stored]
    refine ⟨_, performed, ?_⟩
    obtain rfl := h.indexed.id_of_get? found
    have named : (e.refreshed refresh).segment.table = naming.tableName e.id := h.named _ e found
    refine ⟨h.putRow (e := e.refreshed refresh) rfl rfl rfl named ?_, fun a there => ?_⟩
    · refine ⟨?_, fun d hd => ?_⟩
      · rw [named, table]
        rfl
      · rw [named, table] at hd
        obtain rfl := Option.some.inj hd
        exact count
    · rw [Catalog.get?_of_put (e := e.refreshed refresh) rfl]
      split
      · rfl
      · exact there
  cases more <;>
  · rw [writeMetadata, ensures_bind]
    refine ensures_call.mpr fun s hs => ?_
    obtain ⟨s', performed, h'⟩ := recorded s hs
    rw [performed]
    exact (ensures_pure _).mpr h'

theorem materialize_mirrors (mirrors : nested.Mirrors naming) :
    NestedRun.Mirrors (materialize setup nested) naming := by
  intro c running refreshed id k h
  unfold materialize
  rw [ensures_bind]
  refine ensures_getRow ?_
  cases found : k.catalog.get? id with
  | none => exact (ensures_throw _).mpr h
  | some e =>
    dsimp only
    refine ensures_bind_kept rfl fun started => ?_
    rw [ensures_bind]
    -- While rows are computed, other rows can change, but none goes.
    refine (compute_mirrors mirrors (.refl h.mirrored)).mono ?_ fun _ hb => h.trans hb
    rintro ⟨rows, asOf, refreshed'⟩ k₁ ⟨set, h₁⟩
    dsimp only at set ⊢
    have present : (k₁.catalog.get? id).isSome = true := h₁.present id (by rw [found]; rfl)
    have table : e.segment.table = naming.tableName id := h.mirrored.named id e found
    rw [table]
    refine (writeTable_ensures _ rows (h.trans h₁)).bind ?_
    rintro count _ ⟨rfl, rfl⟩
    refine ensures_bind_kept rfl fun finished => ?_
    rw [ensures_bind]
    have behind := h₁.mirrored.writeTable present set
    refine (writeMetadata_mirrors _ behind present ?_ rfl).mono (fun _ k₃ h₃ => ?_)
      fun _ never => never.elim
    · rw [Assoc.get?_put, if_pos rfl]
    · exact (ensures_pure _).mpr ((h.trans h₁).trans h₃)

theorem runWith_mirrors (mirrors : nested.Mirrors naming) :
    NestedRun.Mirrors (runWith setup nested) naming := by
  intro c running refreshed id k h
  unfold runWith
  split
  · exact (ensures_throw _).mpr h
  · refine ensures_bind_kept rfl fun _ => ?_
    rw [ensures_bind, ensures_of]
    have materialized : NestedRun.Mirrors (materialize setup nested) naming :=
      materialize_mirrors mirrors
    -- What is left is an event, and then the outcome.
    refine (materialized c (id :: running) refreshed id k h).outcome (fun result k₁ h₁ => ?_)
      fun cause k₁ h₁ => ?_
    · refine ensures_bind_kept rfl fun _ => ?_
      rw [ensures_bind, ensures_check]
      exact (Program.ensures_pure _).mpr ((ensures_pure _).mpr h₁)
    · refine ensures_bind_kept rfl fun _ => ?_
      rw [ensures_bind, ensures_check]
      exact (Program.ensures_pure _).mpr h₁

/-- However deep a run goes, it leaves rows that mirror their tables. -/
theorem runRule_mirrors (depth : Nat) : (runRule setup depth).Mirrors naming := by
  induction depth with
  | zero => exact fun _ _ _ _ _ h => (ensures_throw _).mpr h
  | succ depth ih => exact runWith_mirrors ih

theorem execute_mirrors (h : Mirroring naming c k) (id : RuleId) :
    (execute setup id).Ensures k (fun _ => Mirroring naming c) (Mirroring naming c) := by
  unfold execute
  rw [ensures_bind]
  exact (runRule_mirrors _ c [] [] id k h).mono (fun _ _ h₁ => (ensures_pure _).mpr h₁)
    fun _ h₁ => h₁

/-! ## Runs with their bookkeeping -/

theorem dispatch_mirrors (h : Mirroring naming c k) (id : RuleId) (generation : Option Nat) :
    (dispatch setup id generation).Ensures k fun _ => Mirroring naming c := by
  have run : ∀ k₁, Mirroring naming c k₁ →
      (executeLocked setup id).Ensures k₁ fun _ => Mirroring naming c := by
    intro k₁ h₁
    rw [executeLocked, Program.ensures_bind]
    have released : ∀ result k₂, Mirroring naming c k₂ →
        (giveBack id result).Ensures k₂ fun _ => Mirroring naming c := by
      intro result k₂ h₂
      refine Program.ensures_bind_kept rfl fun _ => ?_
      refine Program.ensures_bind_kept rfl fun _ => ?_
      exact Program.ensures_bind_kept rfl fun _ => (Program.ensures_pure _).mpr h₂
    exact (execute_mirrors h₁ id).outcome (fun _ k₂ => released _ k₂) fun _ k₂ => released _ k₂
  unfold dispatch
  refine Program.ensures_bind_kept rfl fun _ => ?_
  refine Program.ensures_bind_kept rfl fun _ => ?_
  cases generation with
  | none => exact run k h
  | some generation =>
    exact Program.ensures_bind_kept rfl fun _ => run k h

/-- The bookkeeping after a run keeps rows as mirrors. -/
theorem complete_mirrors (h : Mirroring naming c k) (generation : Option Nat) (schedule : Schedule)
    (previous : Instant) (result : Except Failure Nat) :
    (complete setup id generation schedule previous result).Ensures k fun _ =>
      Mirroring naming c :=
  (complete_asks setup (fun _ made => made) id generation schedule previous result).ensures
    (fun _ _ made h => h.perform (.inr made)) h

theorem passOver_mirrors (began : Instant) (entries : List Entry) (report : PassReport)
    (h : Mirroring naming c k) :
    (passOver setup began entries report).Ensures k fun _ => Mirroring naming c := by
  induction entries generalizing report k with
  | nil => exact (Program.ensures_pure _).mpr h
  | cons e rest ih =>
    unfold passOver
    refine Program.ensures_bind_kept rfl fun generation => ?_
    rw [Program.ensures_bind]
    refine (dispatch_mirrors h e.id generation).mono fun result k₁ h₁ => ?_
    dsimp only
    rw [Program.ensures_bind]
    refine (complete_mirrors h₁ generation e.rule.schedule _ result).mono fun next k₂ h₂ => ?_
    cases next with
    | none => exact (Program.ensures_pure _).mpr h₂
    | some next => exact ih _ h₂

/-- A pass leaves rows that mirror their tables. -/
theorem runPass_mirrors (h : Mirroring naming c k) :
    (runPass setup).Ensures k fun _ => Mirroring naming c := by
  unfold runPass
  refine Program.ensures_bind_kept rfl fun now => ?_
  exact Program.ensures_bind_kept rfl fun rows => passOver_mirrors _ _ _ h

/-- A manual run leaves rows that mirror their tables. -/
theorem manualRun_mirrors (h : Mirroring naming c k) (run : ManualRun) :
    (manualRun setup run).Ensures k fun _ => Mirroring naming c := by
  unfold manualRun
  rw [Program.ensures_bind]
  refine (dispatch_mirrors h run.rule none).mono fun result k₁ h₁ => ?_
  dsimp only
  split
  · refine Program.ensures_bind_kept rfl fun now => ?_
    refine Program.ensures_bind_kept rfl fun row => ?_
    rw [Program.ensures_bind]
    refine Program.ensures_call.mpr fun s hs => ?_
    subst hs
    have h₂ := h₁.perform (r := .recordRun run.rule now
      ((row.bind fun e => e.rule.nextRunAt).getD (run.schedule.nextRun now))) (.inr rfl)
    exact Program.ensures_kept rfl fun _ => h₂
  · exact Program.ensures_kept rfl fun _ => h₁

end Cohort
