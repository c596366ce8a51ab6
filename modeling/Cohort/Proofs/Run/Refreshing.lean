import Cohort.Proofs.Run.Freshness

/-!
# Runs make tables fresh

A run computes its operands first where that is needed, each of them in a run of its own. If
nothing fails and no rule depends on itself, every such run ends with a fresh table: the rules
whose runs are in progress are all different, so that no run is deeper than there are rules.

## Main definitions

* `Ready` — the table of a rule is fresh, or will be computed before it is read
* `CanRun`, `HasRun` — what a run of a rule needs, and what it brings about

## Main results

* `runRule_works` — a run of a rule whose operands are ready makes its table fresh
* `execute_yields` — the same for a run by itself
-/

namespace Cohort

open Cohort.Action

/-- No two rows have the same output table. -/
def Catalog.TablesDistinct (c : Catalog) : Prop :=
  ∀ e ∈ c.list, ∀ e' ∈ c.list, e.segment.table = e'.segment.table → e.id = e'.id

/-- The table of the rule is fresh, or it was never written and is computed on demand. -/
def Ready (setup : Setup) (c : Catalog) (ts : List Transaction) (s : State) (id : RuleId) : Prop :=
  Fresh c ts s id ∨
    setup.running.refreshStale = true ∧
      ∃ e, s.catalog.get? id = some e ∧ e.segment.isMaterialized = false

/-- What a run of a rule needs: everything that it depends on is ready, the rules that count as
refreshed are fresh, and all runs in progress are of rules that depend on this one. -/
structure CanRun (setup : Setup) (c : Catalog) (ts : List Transaction)
    (running refreshed : List RuleId) (id : RuleId) (s : State) : Prop where
  steady : Steady c ts s
  listed : (c.get? id).isSome
  operands : ∀ a, Relation.TransGen (DependsOn c.list) id a → Ready setup c ts s a
  refreshed_fresh : ∀ a ∈ refreshed, Fresh c ts s a
  waiting : ∀ r ∈ running, Relation.TransGen (DependsOn c.list) r id

/-- What a run of a rule brings about. -/
structure HasRun (c : Catalog) (ts : List Transaction) (id : RuleId) (s : State)
    (refreshed : List RuleId) (s' : State) : Prop where
  advances : Advances c ts s s'
  fresh : Fresh c ts s' id
  refreshed_fresh : ∀ a ∈ refreshed, Fresh c ts s' a

/-- Every run of a rule that can be run brings about what it should. -/
def NestedRun.Works (setup : Setup) (c : Catalog) (ts : List Transaction) (nested : NestedRun)
    (running : List RuleId) : Prop :=
  ∀ refreshed id s, CanRun setup c ts running refreshed id s →
    (nested running refreshed id).Yields s (fun result s' => HasRun c ts id s result.2 s')
      fun _ _ => False

variable {setup : Setup} {c : Catalog} {ts : List Transaction} {s s' : State} {id : RuleId}
  {running refreshed : List RuleId} {nested : NestedRun}

theorem Advances.ready (h : Advances c ts s s') {a : RuleId} (ready : Ready setup c ts s a) :
    Ready setup c ts s' a := by
  rcases h.each a with now | kept
  · exact .inl now
  · rcases ready with fresh | ⟨on_demand, e, found, never⟩
    · exact .inl (kept.fresh fresh)
    · exact .inr ⟨on_demand, e, kept.1.trans found, never⟩

theorem Steady.get? (h : Steady c ts s) (listed : (c.get? id).isSome) :
    ∃ e, s.catalog.get? id = some e := by
  rw [← h.same.isSome_get?, Option.isSome_iff_exists] at listed
  exact listed

/-- A run keeps what it needs while other tables become fresh. -/
theorem CanRun.advance (h : CanRun setup c ts running refreshed id s) {refreshed' : List RuleId}
    (advances : Advances c ts s s') (fresh : ∀ a ∈ refreshed', Fresh c ts s' a) :
    CanRun setup c ts running refreshed' id s' where
  steady := advances.steady
  listed := h.listed
  operands a ha := advances.ready (h.operands a ha)
  refreshed_fresh := fresh
  waiting := h.waiting

/-- What an operand needs follows from what the run needs that reads it. -/
theorem CanRun.operand (h : CanRun setup c ts running refreshed id s) (sound : c.Sound)
    {d : RuleId} (hd : DependsOn c.list id d) :
    CanRun setup c ts (id :: running) refreshed d s where
  steady := h.steady
  listed := by
    obtain ⟨e, he, -, hp⟩ := hd
    exact sound.present e he d hp
  operands a ha := h.operands a (.head hd ha)
  refreshed_fresh := h.refreshed_fresh
  waiting := by
    intro r hr
    rcases List.mem_cons.mp hr with rfl | hr
    · exact .single hd
    · exact (h.waiting r hr).tail hd

/-! ## Operands on demand -/

theorem refreshLocked_yields {d : RuleId} {seen : Entry} (works : nested.Works setup c ts running)
    (can : CanRun setup c ts running refreshed d s) (found : s.catalog.get? d = some seen) :
    (refreshLocked nested running id d seen refreshed).Yields s
      (fun refreshed' s' => HasRun c ts d s refreshed' s') fun _ _ => False := by
  unfold refreshLocked
  rw [yields_bind, yields_call]
  have row : (s.perform (.getRow d)).1 = some seen := found
  rw [row]
  dsimp only
  -- No other run goes on meanwhile, so the row is the one that was seen before.
  rw [if_neg (fun h => h rfl), yields_bind, yields_of, outcome_yields]
  refine (works refreshed d s can).of_success ?_
  rintro ⟨rows, refreshed'⟩ s' hasRun
  exact (yields_pure _).mpr hasRun

theorem refreshDependency_yields {d : RuleId} {now : Instant} (acyclic : Acyclic c.list)
    (works : nested.Works setup c ts running) (can : CanRun setup c ts running refreshed d s)
    (ready : Ready setup c ts s d) :
    (refreshDependency nested running id now refreshed d).Yields s
      (fun refreshed' s' => HasRun c ts d s refreshed' s') fun _ _ => False := by
  unfold refreshDependency
  split
  · next already =>
    have hd : d ∈ refreshed := by simpa using already
    exact (yields_pure _).mpr
      ⟨.refl can.steady, can.refreshed_fresh d hd, can.refreshed_fresh⟩
  · obtain ⟨seen, found⟩ := can.steady.get? can.listed
    have row : (s.perform (.getRow d)).1 = some seen := found
    rw [yields_bind, yields_call, row]
    dsimp only
    split
    · next not_needed =>
      -- The table was written before, so it is ready only if it is fresh.
      have materialized : seen.segment.isMaterialized = true := by
        simp [Entry.needsRefresh] at not_needed
        exact not_needed.1
      have fresh : Fresh c ts s d := by
        rcases ready with fresh | ⟨-, e, he, never⟩
        · exact fresh
        · rw [found] at he
          obtain rfl := Option.some.inj he
          exact absurd never (by simp [materialized])
      exact (yields_pure _).mpr ⟨.refl can.steady, fresh, can.refreshed_fresh⟩
    · -- A rule whose run is in progress depends on `d`, and `d` does not depend on itself.
      have not_running : running.contains d = false := by
        rw [List.contains_eq_mem, decide_eq_false_iff_not]
        exact fun hd => acyclic d (can.waiting d hd)
      have locked : Advances c ts s (s.perform (.lockNested d)).2 :=
        State.perform_advances rfl can.steady
      rw [not_running, if_neg (by simp), yields_bind, yields_call, yields_bind, yields_of,
        outcome_yields]
      have can' := can.advance locked fun a ha => locked.fresh (can.refreshed_fresh a ha)
      refine (refreshLocked_yields works can' found).of_success ?_
      intro refreshed' s₁ ran
      have unlocked : Advances c ts s₁ (s₁.perform (.unlock d)).2 :=
        State.perform_advances rfl ran.advances.steady
      rw [yields_bind, yields_call, yields_check, Program.yields_pure]
      exact ⟨locked.trans (ran.advances.trans unlocked), unlocked.fresh ran.fresh,
        fun a ha => unlocked.fresh (ran.refreshed_fresh a ha)⟩

/-- After the operands of a rule were looked after, all of them are fresh. -/
theorem refreshDependencies_yields {dependencies : List RuleId} (sound : c.Sound)
    (works : nested.Works setup c ts (id :: running))
    (can : CanRun setup c ts running refreshed id s)
    (operands : ∀ d ∈ dependencies, DependsOn c.list id d) :
    (refreshDependencies nested (id :: running) id dependencies refreshed).Yields s
      (fun refreshed' s' => Advances c ts s s' ∧ (∀ a ∈ refreshed', Fresh c ts s' a) ∧
        ∀ d ∈ dependencies, Fresh c ts s' d)
      fun _ _ => False := by
  unfold refreshDependencies
  rw [yields_bind, yields_call]
  have timed : Advances c ts s (s.perform .now).2 := State.perform_advances rfl can.steady
  -- The operands that were looked after so far are fresh, and they stay fresh.
  refine (yields_foldlM (fun rest refreshed' s' => Advances c ts s s' ∧
    (∀ a ∈ refreshed', Fresh c ts s' a) ∧ ∃ done, dependencies = done ++ rest ∧
      ∀ d ∈ done, Fresh c ts s' d) ?_ dependencies refreshed _
    ⟨timed, fun a ha => timed.fresh (can.refreshed_fresh a ha), [], rfl, by simp⟩).mono ?_
    fun _ _ never => never
  · rintro d rest refreshed' s₁ ⟨advances, fresh, done, hdone, done_fresh⟩
    have hd : DependsOn c.list id d := operands d (by simp [hdone])
    have can₁ := (can.advance advances fresh).operand sound hd
    have ready := advances.ready (can.operands d (.single hd))
    refine (refreshDependency_yields sound.acyclic works can₁ ready).of_success ?_
    intro refreshed'' s₂ ran
    refine ⟨advances.trans ran.advances, ran.refreshed_fresh, done ++ [d], by simp [hdone], ?_⟩
    intro x hx
    rcases List.mem_append.mp hx with hx | hx
    · exact ran.advances.fresh (done_fresh x hx)
    · obtain rfl := List.mem_singleton.mp hx
      exact ran.fresh
  · rintro refreshed' s₁ ⟨advances, fresh, done, hdone, done_fresh⟩
    rw [List.append_nil] at hdone
    exact ⟨advances, fresh, hdone ▸ done_fresh⟩

/-! ## Writing the table of a rule -/

/-- A row of the present catalogue is a row of the original one up to what runs leave behind. -/
theorem Steady.definition (h : Steady c ts s) (indexed : c.Indexed) {e : Entry}
    (found : s.catalog.get? id = some e) :
    ∃ e₀ ∈ c.list, e₀.id = id ∧ e₀.definition = e.definition := by
  obtain ⟨e₀, found₀, same⟩ := h.same.exists_get? found
  obtain ⟨he₀, hid⟩ := indexed.get?_eq_some.mp found₀
  exact ⟨e₀, he₀, hid, same⟩

/-- The denotation of a rule is computed as its present row says. -/
theorem Steady.meaning_eq (h : Steady c ts s) (sound : c.Sound) {e : Entry}
    (found : s.catalog.get? id = some e) :
    meaning c.list ts id = e.segment.source.rows ts (meaning c.list ts) := by
  obtain ⟨e₀, he₀, rfl, same⟩ := h.definition sound.indexed found
  rw [Cohort.meaning_eq sound.acyclic sound.indexed.nodup_ids he₀, ← e₀.definition_source,
    same, e.definition_source]

/-- The rows of a rule in two states have one definition. -/
theorem Steady.definition_eq (h : Steady c ts s) (h' : Steady c ts s') (indexed : c.Indexed)
    {e e' : Entry} (found : s.catalog.get? id = some e) (found' : s'.catalog.get? id = some e') :
    e'.definition = e.definition := by
  obtain ⟨e₀, he₀, hid₀, same⟩ := h.definition indexed found
  obtain ⟨e₁, he₁, hid₁, same'⟩ := h'.definition indexed found'
  obtain rfl := indexed.eq_of_id_eq he₀ he₁ (hid₀.trans hid₁.symm)
  exact same'.symm.trans same

/-- The rows of a rule in two states name one table. -/
theorem Steady.table_eq (h : Steady c ts s) (h' : Steady c ts s') (indexed : c.Indexed)
    {e e' : Entry} (found : s.catalog.get? id = some e) (found' : s'.catalog.get? id = some e') :
    e.segment.table = e'.segment.table := by
  rw [← e.definition_table, ← h.definition_eq h' indexed found found', e'.definition_table]

/-- Only the rows of one rule name a table. -/
theorem Steady.id_eq_of_table_eq (h : Steady c ts s) (indexed : c.Indexed)
    (tables : c.TablesDistinct) {a b : RuleId} {e e' : Entry} (found : s.catalog.get? a = some e)
    (found' : s.catalog.get? b = some e') (same_table : e.segment.table = e'.segment.table) :
    a = b := by
  obtain ⟨e₀, he₀, rfl, hdef₀⟩ := h.definition indexed found
  obtain ⟨e₁, he₁, rfl, hdef₁⟩ := h.definition indexed found'
  refine tables e₀ he₀ e₁ he₁ ?_
  rw [← e₀.definition_table, hdef₀, e.definition_table, same_table, ← e'.definition_table,
    ← hdef₁, e₁.definition_table]

/-- What a run computes is what its rule denotes. -/
theorem compute_yields {e : Entry} {started : Instant} (sound : c.Sound)
    (works : nested.Works setup c ts (id :: running))
    (can : CanRun setup c ts running refreshed id s) (found : s.catalog.get? id = some e) :
    (compute setup nested (id :: running) refreshed e started).Yields s
      (fun computed s' => Advances c ts s s' ∧ computed.1 = meaning c.list ts id ∧
        ∀ a ∈ computed.2.2, Fresh c ts s' a)
      fun _ _ => False := by
  have denoted := can.steady.meaning_eq sound found
  have e_id : e.id = id := can.steady.indexed.id_of_get? found
  obtain ⟨e₀, he₀, hid₀, same⟩ := can.steady.definition sound.indexed found
  have valid : e.validate = .ok () := by
    rw [← e.definition_validate, ← same, e₀.definition_validate]
    exact sound.valid e₀ he₀
  have operands : ∀ d ∈ e.parents, DependsOn c.list id d := by
    intro d hd
    refine ⟨e₀, he₀, hid₀, ?_⟩
    rwa [← e₀.definition_parents, same, e.definition_parents]
  unfold compute
  split
  · next q hsource =>
    rw [hsource] at denoted
    rw [yields_bind]
    refine (computeBase_yields q can.steady).of_success ?_
    rintro rows s' ⟨advances, rfl⟩
    exact (yields_pure _).mpr
      ⟨advances, denoted.symm, fun a ha => advances.fresh (can.refreshed_fresh a ha)⟩
  · next dependencies operation residual hsource =>
    have parents : e.parents = dependencies := by
      rw [Entry.parents, hsource]
      rfl
    have nonempty : dependencies ≠ [] := by
      rcases Entry.valid_cases valid with ⟨q, hbase, -⟩ | ⟨_, _, _, hcomposite, -, -, nonempty, -⟩
      · rw [hsource] at hbase
        cases hbase
      · rw [hsource] at hcomposite
        cases hcomposite
        exact nonempty
    rw [parents] at operands
    rw [hsource] at denoted
    -- However the operands became fresh, they are combined as the denotation says.
    have combines : ∀ (refreshed' : List RuleId) (s₁ : State), Advances c ts s s₁ →
        (∀ a ∈ refreshed', Fresh c ts s₁ a) → (∀ d ∈ dependencies, Fresh c ts s₁ d) →
        (computeComposite e.id dependencies operation residual >>= fun result =>
          pure (result.1, result.2, refreshed') :
            Action (Dataset × Instant × List RuleId)).Yields s₁
          (fun computed s' => Advances c ts s s' ∧ computed.1 = meaning c.list ts id ∧
            ∀ a ∈ computed.2.2, Fresh c ts s' a)
          fun _ _ => False := by
      intro refreshed' s₁ advances fresh operands_fresh
      rw [yields_bind]
      refine (computeComposite_yields operation residual advances.steady nonempty
        operands_fresh).of_success ?_
      rintro ⟨rows, asOf⟩ s₂ ⟨advances', rfl⟩
      exact (yields_pure _).mpr
        ⟨advances.trans advances', denoted.symm, fun a ha => advances'.fresh (fresh a ha)⟩
    split
    · rw [yields_bind, e_id]
      refine (refreshDependencies_yields sound works can operands).of_success ?_
      rintro refreshed' s₁ ⟨advances, fresh, operands_fresh⟩
      rw [e_id] at combines
      exact combines refreshed' s₁ advances fresh operands_fresh
    · next not_on_demand =>
      refine combines refreshed s (.refl can.steady) can.refreshed_fresh fun d hd => ?_
      rcases can.operands d (.single (operands d hd)) with fresh | ⟨on_demand, -⟩
      · exact fresh
      · exact absurd on_demand not_on_demand

/-- A row can be put in the place of one with the same definition. -/
theorem Steady.of_put {e new : Entry} (steady : Steady c ts s)
    (found : s.catalog.get? id = some e) (kept : new.definition = e.definition)
    (hrows : s'.catalog.rows = Assoc.put id new s.catalog.rows)
    (transactions : s'.engine.transactions = s.engine.transactions)
    (healthy : s'.engine.Healthy) (faults : s'.faults = {}) :
    Steady c ts s' ∧ ∀ a, s'.catalog.get? a = if id = a then some new else s.catalog.get? a := by
  have new_id : new.id = id := by
    rw [← new.definition_id, kept, e.definition_id]
    exact steady.indexed.id_of_get? found
  have hput : s'.catalog.rows = Assoc.put new.id new s.catalog.rows := by
    rw [new_id]
    exact hrows
  have get?_eq : ∀ a, s'.catalog.get? a = if id = a then some new else s.catalog.get? a := by
    intro a
    rw [Catalog.get?_of_put hput, new_id]
  have same : s.catalog.SameDefinitions s'.catalog := by
    intro a
    rw [get?_eq]
    split
    · next ha => rw [← ha, found, Option.map_some, Option.map_some, kept]
    · rfl
  refine ⟨?_, get?_eq⟩
  exact
    { indexed := steady.indexed.put hput
      same := steady.same.trans same
      transactions := transactions.trans steady.transactions
      healthy
      faults }

/-- A rule is fresh once its denotation is in its table and its row says so. No other table has
changed, as no other row has the same table. -/
theorem Advances.of_written {e : Entry} {refresh : Refresh} (sound : c.Sound)
    (tables : c.TablesDistinct) (steady : Steady c ts s) (found : s.catalog.get? id = some e)
    (hrows : s'.catalog.rows = Assoc.put id (e.refreshed refresh) s.catalog.rows)
    (htables : s'.engine.tables =
      Assoc.put e.segment.table (meaning c.list ts id) s.engine.tables)
    (transactions : s'.engine.transactions = s.engine.transactions)
    (healthy : s'.engine.Healthy) (faults : s'.faults = {}) :
    Advances c ts s s' ∧ Fresh c ts s' id := by
  obtain ⟨steady', get?_eq⟩ := steady.of_put found (e.definition_refreshed refresh) hrows
    transactions healthy faults
  have fresh : Fresh c ts s' id := by
    refine ⟨e.refreshed refresh, by rw [get?_eq, if_pos rfl], rfl, ?_⟩
    rw [Engine.table?, htables]
    exact (Assoc.get?_put _ _ _ _).trans (if_pos rfl)
  refine ⟨⟨steady', fun a => ?_⟩, fresh⟩
  by_cases ha : id = a
  · exact .inl (ha ▸ fresh)
  · refine .inr ⟨by rw [get?_eq, if_neg ha], fun e' found' => ?_⟩
    have other : e.segment.table ≠ e'.segment.table := fun same_table =>
      ha (steady.id_eq_of_table_eq sound.indexed tables found found' same_table)
    rw [Engine.table?, Engine.table?, htables, Assoc.get?_put, if_neg other]

/-- Without faults, metadata is written at the first attempt. -/
theorem writeMetadata_yields {e : Entry} (refresh : Refresh) (more : Nat)
    (found : s.catalog.get? id = some e) (faults : s.faults = {}) :
    (writeMetadata id refresh more).Yields s
      (fun _ s' => s'.catalog.rows = Assoc.put id (e.refreshed refresh) s.catalog.rows ∧
        s'.engine = s.engine ∧ s'.faults = {})
      fun _ _ => False := by
  have recorded : s.perform (.recordRefresh id refresh) = (.ok (),
      { s with
        catalog := { s.catalog with rows := Assoc.put id (e.refreshed refresh) s.catalog.rows }
        faults := {} }) := by
    simp only [State.perform, State.recordRefresh, faults, Fault.trip, Catalog.recordRefresh,
      Catalog.modify, found]
  have written : (Action.call (.recordRefresh id refresh)).Yields s
      (fun result s' => result = .ok () ∧
        s'.catalog.rows = Assoc.put id (e.refreshed refresh) s.catalog.rows ∧
        s'.engine = s.engine ∧ s'.faults = {})
      fun _ _ => False := by
    rw [yields_call, recorded]
    exact ⟨rfl, rfl, rfl, rfl⟩
  cases more <;>
  · rw [writeMetadata, yields_bind]
    refine written.of_success ?_
    rintro _ s' ⟨rfl, kept⟩
    exact (yields_pure _).mpr kept

/-- A healthy engine writes a table. -/
theorem writeTable_yields (table : String) (rows : Dataset) (healthy : s.engine.Healthy)
    (faults : s.faults = {}) :
    (orFail id (Program.call (.writeTable table rows))).Yields s
      (fun _ s' => s'.catalog = s.catalog ∧
        s'.engine.tables = Assoc.put table rows s.engine.tables ∧
        s'.engine.transactions = s.engine.transactions ∧ s'.engine.Healthy ∧ s'.faults = {})
      fun _ _ => False := by
  have written : s.perform (.writeTable table rows) = (.ok rows.length,
      { s with
        engine :=
          { s.engine with
            tables := Assoc.put table rows s.engine.tables
            writes := s.engine.writes + 1 } }) := by
    simp only [State.perform, Engine.writeTable, healthy.writes, List.contains_nil,
      Engine.putTable]
    rfl
  refine orFail_yields ?_
  rw [Program.yields_call, written]
  exact ⟨_, rfl, rfl, rfl, rfl, ⟨healthy.answers, healthy.lives, healthy.writes⟩, faults⟩

theorem materialize_yields (sound : c.Sound) (tables : c.TablesDistinct)
    (works : nested.Works setup c ts (id :: running))
    (can : CanRun setup c ts running refreshed id s) :
    (materialize setup nested (id :: running) refreshed id).Yields s
      (fun result s' => HasRun c ts id s result.2 s') fun _ _ => False := by
  obtain ⟨e, found⟩ := can.steady.get? can.listed
  have row : (s.perform (.getRow id)).1 = some e := found
  unfold materialize
  rw [yields_bind, yields_call, row]
  dsimp only
  rw [yields_bind, yields_call, yields_bind]
  have timed : Advances c ts s ((s.perform (.getRow id)).2.perform .now).2 :=
    State.perform_advances rfl can.steady
  have can₁ := can.advance timed fun a ha => timed.fresh (can.refreshed_fresh a ha)
  refine (compute_yields sound works can₁ found).of_success ?_
  rintro ⟨rows, asOf, refreshed'⟩ s₁ ⟨advances, rfl, fresh⟩
  have advances₁ := timed.trans advances
  -- The row can have changed meanwhile, but its table is the same.
  obtain ⟨e₁, found₁⟩ := advances₁.steady.get? can.listed
  have same_table := can.steady.table_eq advances₁.steady sound.indexed found found₁
  have healthy₁ := advances₁.steady.healthy
  dsimp only
  rw [yields_bind, same_table]
  refine (writeTable_yields _ _ healthy₁ advances₁.steady.faults).of_success ?_
  rintro count s₂ ⟨hcatalog, htables, htransactions, healthy, faults⟩
  rw [yields_bind, yields_call, yields_bind]
  have found₂ : (s₂.perform .now).2.catalog.get? id = some e₁ := by
    rw [← found₁, ← hcatalog]
    rfl
  refine (writeMetadata_yields _ _ found₂ faults).of_success ?_
  rintro _ s₃ ⟨hrows, hengine, faults₃⟩
  -- Reading the time in between has changed neither the engine nor the rows.
  have timed₂ : (s₂.perform .now).2.engine = s₂.engine := rfl
  have kept₂ : (s₂.perform .now).2.catalog.rows = s₁.catalog.rows := congrArg Catalog.rows hcatalog
  rw [kept₂] at hrows
  rw [timed₂] at hengine
  obtain ⟨written, fresh_now⟩ := Advances.of_written sound tables advances₁.steady found₁ hrows
    (by rw [hengine, htables]) (by rw [hengine, htransactions]) (by rw [hengine]; exact healthy)
    faults₃
  exact (yields_pure _).mpr
    ⟨advances₁.trans written, fresh_now, fun a ha => written.fresh (fresh a ha)⟩

/-! ## Runs -/

/-- A run makes the table of its rule fresh if the runs of its operands do. -/
theorem runWith_works (sound : c.Sound) (tables : c.TablesDistinct)
    (works : ∀ id, id ∉ running → nested.Works setup c ts (id :: running)) :
    (runWith setup nested).Works setup c ts running := by
  intro refreshed id s can
  -- Every rule whose run is in progress depends on this one.
  have not_running : id ∉ running := fun hid => sound.acyclic id (can.waiting id hid)
  unfold runWith
  rw [if_neg (by simpa using not_running), yields_bind, yields_call, yields_bind, yields_of,
    outcome_yields]
  have started : Advances c ts s (s.perform (.emit { kind := .runStarted, rule := id })).2 :=
    State.perform_advances rfl can.steady
  have can₁ := can.advance started fun a ha => started.fresh (can.refreshed_fresh a ha)
  refine (materialize_yields sound tables (works id not_running) can₁).of_success ?_
  rintro ⟨count, refreshed'⟩ s₁ ran
  rw [yields_bind, yields_call, yields_bind, yields_check, Program.yields_pure]
  have ended : Advances c ts s₁ (s₁.perform (.emit (Event.ofRun id
      ((Except.ok (count, refreshed') : Except Failure _).map (·.1))))).2 :=
    State.perform_advances rfl ran.advances.steady
  refine (yields_pure _).mpr ⟨started.trans (ran.advances.trans ended), ended.fresh ran.fresh, ?_⟩
  intro a ha
  rcases List.mem_cons.mp ha with rfl | ha
  · exact ended.fresh ran.fresh
  · exact ended.fresh (ran.refreshed_fresh a ha)

/-- Rules whose runs are in progress at the same time are different, so that there is always depth
enough for one more. -/
theorem runRule_works (sound : c.Sound) (tables : c.TablesDistinct) (depth : Nat)
    {running : List RuleId} (different : running.Nodup)
    (enough : RuleId.count + 1 ≤ running.length + depth) :
    (runRule setup depth).Works setup c ts running := by
  induction depth generalizing running with
  | zero =>
    -- There are not so many rules.
    have := RuleId.length_le_count different
    omega
  | succ depth ih =>
    refine runWith_works sound tables fun id hid => ?_
    refine ih (List.nodup_cons.mpr ⟨hid, different⟩) ?_
    rw [List.length_cons]
    omega

/-- A run by itself makes the table of its rule fresh, if everything that the rule depends on is
ready. -/
theorem execute_yields (sound : c.Sound) (tables : c.TablesDistinct) (steady : Steady c ts s)
    (listed : (c.get? id).isSome)
    (operands : ∀ a, Relation.TransGen (DependsOn c.list) id a → Ready setup c ts s a) :
    (execute setup id).Yields s (fun _ s' => Advances c ts s s' ∧ Fresh c ts s' id)
      fun _ _ => False := by
  unfold execute
  rw [yields_bind]
  have can : CanRun setup c ts [] [] id s := ⟨steady, listed, operands, by simp, by simp⟩
  refine (runRule_works sound tables _ List.nodup_nil (by simp) [] id s can).of_success ?_
  rintro ⟨count, refreshed⟩ s' ran
  exact (yields_pure _).mpr ⟨ran.advances, ran.fresh⟩

end Cohort
