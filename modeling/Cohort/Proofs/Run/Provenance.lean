import Cohort.Proofs.Program.Trail
import Cohort.Proofs.Run.Refreshing

/-!
# Where the rows of a table come from

A run writes what the source in the row stands for, computed from the tables that are there. So a
table whose source has not changed since then holds what its row says, and a run changes nothing
about how other tables stand. This holds whether the runs of operands succeed or fail.

## Main definitions

* `State.tableOf` — the rows in the table of a rule
* `Entry.IsComputed` — the table was written as the row says
* `Entry.IsExplained` — the table was written as the row says, or the rule is due again
* `Explained` — nothing fails, and all tables are explained

## Main results

* `Explained.perform`, `Explained.written`, `Explained.recorded` — what requests preserve
* `runRule_explains` — a run leaves all tables explained, and its own as the row says
* `runPass_explains`, `manualRun_explains` — passes and manual runs leave all tables explained
-/

namespace Cohort

/-- The rows in the table of a rule. -/
def State.tableOf (s : State) (id : RuleId) : Dataset :=
  ((s.catalog.get? id).bind fun e => s.engine.table? e.segment.table).getD []

/-- The table was written last with what its source stands for: the row had the same source then,
and the rows were computed from the transactions and the tables of that time. -/
def Entry.IsComputed (w : Trail) (e : Entry) : Prop :=
  ∃ s₀ e₀ rows, (w e.segment.table).written = some (s₀, rows) ∧
    s₀.catalog.get? e.id = some e₀ ∧ e₀.segment.source = e.segment.source ∧
    rows = e.segment.source.rows s₀.engine.transactions s₀.tableOf

/-- The table was written as the row says if the source is the same since then. If the source is
another, and the schedule still the one from then, an active rule was due at a time that the clock
has shown. -/
def Entry.IsExplained (clock : Clock) (w : Trail) (e : Entry) : Prop :=
  match (w e.segment.table).standing with
  | .current => e.IsComputed w
  | .changed => e.rule.active = true → ∃ t, e.rule.nextRunAt = some t ∧ clock.HasShown t
  | .moved => True

/-- All tables that were written are explained. -/
def State.Explains (s : State) (w : Trail) : Prop :=
  ∀ id e, s.catalog.get? id = some e → e.segment.isMaterialized = true → e.IsExplained s.clock w

/-- Nothing fails, and all tables that were written are explained. -/
structure Explained (c : Catalog) (ts : List Transaction) (s : State) (w : Trail) : Prop where
  steady : Steady c ts s
  explains : s.Explains w

/-- The table of the rule was written as the row says, and the source is the same since then. -/
def Renewed (s : State) (w : Trail) (id : RuleId) : Prop :=
  ∃ e, s.catalog.get? id = some e ∧ (w e.segment.table).standing = .current ∧ e.IsComputed w

open Cohort.Action

variable {setup : Setup} {c : Catalog} {ts : List Transaction} {s s' : State} {w w' : Trail}
  {id : RuleId} {e e' : Entry} {running refreshed : List RuleId} {nested : NestedRun}

namespace Entry

/-- Of a row, its identifier, its table and its source matter. -/
theorem IsComputed.of_same (h : e.IsComputed w) (same_id : e'.id = e.id)
    (same_table : e'.segment.table = e.segment.table)
    (same_source : e'.segment.source = e.segment.source) : e'.IsComputed w := by
  obtain ⟨s₀, e₀, rows, written, found, source, computed⟩ := h
  refine ⟨s₀, e₀, rows, ?_, ?_, ?_, ?_⟩
  · rw [same_table, written]
  · rw [same_id, found]
  · rw [same_source, source]
  · rw [same_source, computed]

/-- Of the trail, the last write of the table matters. -/
theorem IsComputed.of_written (h : e.IsComputed w)
    (same : (w' e.segment.table).written = (w e.segment.table).written) : e.IsComputed w' := by
  obtain ⟨s₀, e₀, rows, written, rest⟩ := h
  exact ⟨s₀, e₀, rows, same.trans written, rest⟩

theorem IsExplained.of_current (current : (w e.segment.table).standing = .current)
    (computed : e.IsComputed w) (clock : Clock) : e.IsExplained clock w := by
  rw [IsExplained, current]
  exact computed

theorem IsExplained.of_mark {clock clock' : Clock} (h : e.IsExplained clock w)
    (later : ∀ t, clock.HasShown t → clock'.HasShown t)
    (same : w' e.segment.table = w e.segment.table) : e.IsExplained clock' w' := by
  unfold IsExplained at h ⊢
  rw [same]
  cases standing : (w e.segment.table).standing with
  | current =>
    rw [standing] at h
    exact h.of_written (congrArg Mark.written same)
  | changed =>
    rw [standing] at h
    intro active
    obtain ⟨t, due, shown⟩ := h active
    exact ⟨t, due, later t shown⟩
  | moved => trivial

end Entry

/-! ## What requests preserve -/

theorem Request.leavesData_of_ofReading {r : Request} (h : r.ofReading = true) :
    r.leavesData = true := by
  cases r <;> simp_all [leavesData, leavesCatalog, ofReading]

/-- A request that leaves the data alone leaves all tables explained. -/
theorem Explained.perform (h : Explained c ts s w) {r : Request} (kept : r.leavesData = true) :
    Explained c ts (s.perform r).2 w where
  steady := (State.perform_advances kept h.steady).steady
  explains id e found written := by
    rw [State.perform_catalog (Request.leavesCatalog_of_leavesData kept)] at found
    exact (h.explains id e found written).of_mark
      (fun _ shown => State.perform_hasShown shown r) rfl

theorem Renewed.perform (h : Renewed s w id) {r : Request} (kept : r.leavesData = true) :
    Renewed (s.perform r).2 w id := by
  obtain ⟨e, found, rest⟩ := h
  refine ⟨e, ?_, rest⟩
  rw [State.perform_catalog (Request.leavesCatalog_of_leavesData kept), found]

theorem State.perform_tableOf {r : Request} (kept : r.leavesData = true) (s : State) :
    (s.perform r).2.tableOf = s.tableOf := by
  funext id
  simp only [tableOf, Engine.table?, perform_tables (Request.leavesTables_of_leavesData kept),
    perform_catalog (Request.leavesCatalog_of_leavesData kept)]

/-- What a run writes into the row of a renewed table leaves all tables explained. -/
theorem Explained.recorded (h : Explained c ts s w) (renewed : Renewed s w id)
    (found : s.catalog.get? id = some e) (same : e'.definition = e.definition)
    (hrows : s'.catalog.rows = Assoc.put id e' s.catalog.rows) (engine : s'.engine = s.engine)
    (faults : s'.faults = {}) (clock : s'.clock = s.clock) :
    Explained c ts s' w ∧ Renewed s' w id := by
  obtain ⟨steady, get?_eq⟩ := h.steady.of_put found same hrows (by rw [engine])
    (engine ▸ h.steady.healthy) faults
  obtain ⟨e₁, found₁, current, computed⟩ := renewed
  obtain rfl : e₁ = e := Option.some.inj (found₁.symm.trans found)
  have same_table : e'.segment.table = e₁.segment.table := by
    rw [← e'.definition_table, same, e₁.definition_table]
  have current' : (w e'.segment.table).standing = .current := by rw [same_table, current]
  have computed' : e'.IsComputed w := by
    refine computed.of_same ?_ same_table ?_
    · rw [← e'.definition_id, same, e₁.definition_id]
    · rw [← e'.definition_source, same, e₁.definition_source]
  refine ⟨⟨steady, fun a x found_x written => ?_⟩, e', by rw [get?_eq, if_pos rfl], current',
    computed'⟩
  rw [get?_eq] at found_x
  split at found_x
  · obtain rfl := Option.some.inj found_x
    exact .of_current current' computed' _
  · rw [clock]
    exact h.explains a x found_x written

/-- A table into which the source was computed is renewed, and all others stay as they are. -/
theorem Explained.written {rows : Dataset} (h : Explained c ts s w) (indexed : c.Indexed)
    (tables : c.TablesDistinct) (found : s.catalog.get? id = some e)
    (computed : rows = e.segment.source.rows ts s.tableOf) :
    (orFail id (Program.call (.writeTable e.segment.table rows))).Traces s w
      (fun _ s' w' => Explained c ts s' w' ∧ Renewed s' w' id) fun _ _ => False := by
  have performed : s.perform (.writeTable e.segment.table rows) = (.ok rows.length,
      { s with
        engine :=
          { s.engine with
            tables := Assoc.put e.segment.table rows s.engine.tables
            writes := s.engine.writes + 1 } }) := by
    simp only [State.perform, Engine.writeTable, h.steady.healthy.writes, List.contains_nil,
      Engine.putTable]
    rfl
  have noted : w.note s (.writeTable e.segment.table rows) =
      w.set e.segment.table { written := some (s, rows) } := by
    simp [Trail.note, Engine.writeTable, h.steady.healthy.writes]
  unfold orFail
  rw [traces_check, Program.traces_bind, Program.traces_call, performed, noted,
    Program.traces_pure]
  have current : ((w.set e.segment.table { written := some (s, rows) }) e.segment.table).standing =
      .current := by rw [Trail.set_self]
  have now_computed : e.IsComputed (w.set e.segment.table { written := some (s, rows) }) := by
    refine ⟨s, e, rows, by rw [Trail.set_self], ?_, rfl, ?_⟩
    · rw [h.steady.indexed.id_of_get? found, found]
    · rw [computed, h.steady.transactions]
  refine ⟨⟨?_, fun a x found_x materialized => ?_⟩, e, found, current, now_computed⟩
  · exact
      { indexed := h.steady.indexed
        same := h.steady.same
        transactions := h.steady.transactions
        healthy := ⟨h.steady.healthy.answers, h.steady.healthy.lives, h.steady.healthy.writes⟩
        faults := h.steady.faults }
  · by_cases same : e.segment.table = x.segment.table
    -- No other row has this table.
    · obtain rfl : id = a := h.steady.id_eq_of_table_eq indexed tables found found_x same
      obtain rfl : e = x := Option.some.inj (found.symm.trans found_x)
      exact .of_current current now_computed _
    · exact (h.explains a x found_x materialized).of_mark (fun _ shown => shown)
        (Trail.set_of_ne _ _ same)

/-! ## Computing rows from the tables that are there -/

theorem loadDependency_reads (dependency : RuleId) (s : State) :
    (loadDependency id dependency).Yields s
      (fun loaded s' => s' = s ∧ loaded.1 = s.tableOf dependency) fun _ _ => True := by
  unfold loadDependency
  dsimp only
  rw [yields_bind, yields_call]
  simp only [State.perform]
  cases found : s.catalog.get? dependency with
  | none => exact (yields_throw _).mpr trivial
  | some e =>
    dsimp only
    split
    · exact (yields_throw _).mpr trivial
    · rw [yields_bind, yields_call]
      simp only [State.perform, Engine.readTable]
      cases rows : s.engine.table? e.segment.table with
      | none => exact (yields_throw _).mpr trivial
      | some rows =>
        refine (yields_pure _).mpr ⟨rfl, ?_⟩
        simp [State.tableOf, found, rows]

theorem loadDependencies_reads (dependencies : List RuleId) (s : State) :
    (loadDependencies id dependencies).Yields s
      (fun loaded s' => s' = s ∧ loaded.1 = dependencies.map s.tableOf) fun _ _ => True := by
  unfold loadDependencies
  rw [yields_bind]
  -- The tables loaded so far are those of the dependencies before the ones to come.
  refine (yields_mapM (fun loaded rest s' => s' = s ∧ ∃ seen, dependencies = seen ++ rest ∧
    loaded.map (·.1) = seen.map s.tableOf) ?_ dependencies [] s
    ⟨rfl, [], rfl, rfl⟩).mono ?_ fun _ _ any => any
  · rintro loaded d rest s' ⟨rfl, seen, hseen, hloaded⟩
    refine (loadDependency_reads d s').mono ?_ fun _ _ _ => trivial
    rintro more s'' ⟨rfl, hmore⟩
    refine ⟨rfl, seen ++ [d], by simp [hseen], ?_⟩
    rw [List.map_append, List.map_append, hloaded, List.map_singleton, List.map_singleton, hmore]
  · rintro loaded s' ⟨rfl, seen, hseen, hloaded⟩
    rw [List.append_nil] at hseen
    rw [List.nil_append] at hloaded
    subst hseen
    split
    · exact (yields_throw _).mpr trivial
    · exact (yields_pure _).mpr ⟨rfl, hloaded⟩

/-- What comes out of a combination is what it stands for over the tables that are there. -/
theorem computeComposite_reads (dependencies : List RuleId) (operation : SetOperation)
    (residual : Option Query) (steady : Steady c ts s) :
    (computeComposite id dependencies operation residual).Yields s
      (fun computed _ => computed.1 =
        (SegmentSource.composite dependencies operation residual).rows ts s.tableOf)
      fun _ _ => True := by
  unfold computeComposite
  rw [yields_bind]
  refine (loadDependencies_reads dependencies s).mono ?_ fun _ _ _ => trivial
  rintro ⟨operands, oldest⟩ s' ⟨rfl, rfl⟩
  dsimp only
  rw [yields_bind]
  unfold orFail
  rw [yields_check, Program.yields_bind, Program.yields_pure, Program.yields_pure]
  rw [SegmentSource.rows]
  cases Dataset.combine operation (dependencies.map s'.tableOf) with
  | error cause => trivial
  | ok combined =>
    dsimp only [Except.mapError]
    unfold narrowed
    -- What is left is to narrow the combination, if there is a test to make.
    cases residual.filter fun q => !q.isUnfiltered with
    | none => exact (yields_pure _).mpr rfl
    | some q =>
      dsimp only
      rw [yields_bind, yields_check, Program.yields_bind]
      refine (runQuery_yields q steady).mono ?_
      rintro result s₁ ⟨-, rfl⟩
      exact (Program.yields_pure _).mpr ((yields_pure _).mpr rfl)

/-! ## Runs -/

/-- Every run leaves all tables explained, and one that succeeds renews its own. -/
def NestedRun.Explains (nested : NestedRun) (c : Catalog) (ts : List Transaction) : Prop :=
  ∀ running refreshed id s w, Explained c ts s w →
    (nested running refreshed id).Traces s w
      (fun _ s' w' => Explained c ts s' w' ∧ Renewed s' w' id) (Explained c ts)

theorem refreshLocked_explains {dependency : RuleId} {seen : Entry}
    (explains : nested.Explains c ts) (h : Explained c ts s w) :
    (refreshLocked nested running id dependency seen refreshed).Traces s w
      (fun _ => Explained c ts) (Explained c ts) := by
  unfold refreshLocked
  rw [traces_bind, traces_call_of rfl]
  have h₁ := h.perform (r := .getRow dependency) rfl
  split
  · exact (traces_pure _).mpr h₁
  · split
    · exact (traces_pure _).mpr h₁
    · rw [traces_bind, traces_of]
      refine Traces.outcome ((explains running refreshed dependency _ _ h₁).mono ?_
        fun _ _ h₂ => h₂) fun cause s₂ w₂ h₂ => ?_
      · exact fun result s₂ w₂ h₂ => (traces_pure _).mpr h₂.1
      · exact (traces_throw _).mpr h₂

theorem refreshDependency_explains {dependency : RuleId} {now : Instant}
    (explains : nested.Explains c ts) (h : Explained c ts s w) :
    (refreshDependency nested running id now refreshed dependency).Traces s w
      (fun _ => Explained c ts) (Explained c ts) := by
  unfold refreshDependency
  split
  · exact (traces_pure _).mpr h
  · rw [traces_bind, traces_call_of rfl]
    have h₁ := h.perform (r := .getRow dependency) rfl
    split
    · exact (traces_pure _).mpr h₁
    · split
      · exact (traces_pure _).mpr h₁
      · split
        · exact refreshLocked_explains explains h₁
        · have h₂ := h₁.perform (r := .lockNested dependency) rfl
          rw [traces_bind, traces_call_of rfl, traces_bind, traces_of]
          -- The lock is given back whether or not the run has succeeded.
          have unlocked : ∀ (outcome : Except Failure (List RuleId)) (s₃ : State) (w₃ : Trail),
              Explained c ts s₃ w₃ →
              (Action.call (.unlock dependency) >>= fun _ => Action.check (pure outcome)).Traces
                s₃ w₃ (fun _ => Explained c ts) (Explained c ts) := by
            intro outcome s₃ w₃ h₃
            have h₄ := h₃.perform (r := .unlock dependency) rfl
            rw [traces_bind, traces_call_of rfl, traces_check, Program.traces_pure]
            cases outcome <;> exact h₄
          exact Traces.outcome ((refreshLocked_explains explains h₂).mono
            (fun _ _ _ => unlocked _ _ _) fun _ _ h₃ => h₃) fun _ _ _ => unlocked _ _ _

/-- What a run computes is what the source of its row stands for over the tables that are there
when it is done, those of its operands among them. -/
theorem compute_explains {started : Instant} (explains : nested.Explains c ts)
    (h : Explained c ts s w) :
    (compute setup nested running refreshed e started).Traces s w
      (fun computed s' w' => Explained c ts s' w' ∧
        computed.1 = e.segment.source.rows ts s'.tableOf) (Explained c ts) := by
  -- While rows are read, all tables stay as they are.
  have reading : ∀ (s₁ : State) (r : Request) (s' : State) (w' : Trail), r.ofReading = true →
      Explained c ts s' w' ∧ s'.tableOf = s₁.tableOf →
      Explained c ts (s'.perform r).2 (w'.note s' r) ∧
        (s'.perform r).2.tableOf = s₁.tableOf := by
    intro s₁ r s' w' hr ⟨h', same⟩
    have kept := Request.leavesData_of_ofReading hr
    rw [Trail.note_eq (Request.leavesTables_of_leavesData kept), State.perform_tableOf kept]
    exact ⟨h'.perform kept, same⟩
  unfold compute
  split
  · next q hsource =>
    rw [traces_bind, hsource]
    refine ((computeBase_yields q h.steady).traces _ (computeBase_asks (fun _ hr => hr) q)
      (reading s) ⟨h, rfl⟩).mono ?_ fun _ _ hb => hb.2.1
    rintro rows s₁ w₁ ⟨⟨-, rfl⟩, h₁, -⟩
    exact (traces_pure _).mpr ⟨h₁, rfl⟩
  · next dependencies operation residual hsource =>
    have combines : ∀ (refreshed' : List RuleId) (s₁ : State) (w₁ : Trail),
        Explained c ts s₁ w₁ →
        (computeComposite e.id dependencies operation residual >>= fun result =>
          pure (result.1, result.2, refreshed') : Action (Dataset × Instant × List RuleId)).Traces
            s₁ w₁ (fun computed s' w' => Explained c ts s' w' ∧
              computed.1 = e.segment.source.rows ts s'.tableOf) (Explained c ts) := by
      intro refreshed' s₁ w₁ h₁
      rw [traces_bind, hsource]
      refine ((computeComposite_reads dependencies operation residual h₁.steady).traces _
        (computeComposite_asks (fun _ hr => hr) ..) (reading s₁) ⟨h₁, rfl⟩).mono ?_
        fun _ _ hb => hb.2.1
      rintro ⟨rows, asOf⟩ s₂ w₂ ⟨rfl, h₂, same⟩
      refine (traces_pure _).mpr ⟨h₂, ?_⟩
      rw [same]
    split
    · rw [traces_bind]
      unfold refreshDependencies
      rw [traces_bind, traces_call_of rfl]
      refine (traces_foldlM (fun _ => Explained c ts) (fun refreshed' d s₁ w₁ h₁ =>
        refreshDependency_explains explains h₁) dependencies refreshed _ _
        (h.perform rfl)).mono ?_ fun _ _ hb => hb
      exact fun refreshed' s₁ w₁ h₁ => combines refreshed' s₁ w₁ h₁
    · exact combines refreshed s w h

/-- Metadata is written for a table that was written just before. -/
theorem writeMetadata_explains (refresh : Refresh) (more : Nat) (h : Explained c ts s w)
    (renewed : Renewed s w id) :
    (writeMetadata id refresh more).Traces s w
      (fun _ s' w' => Explained c ts s' w' ∧ Renewed s' w' id) fun _ _ => False := by
  have ⟨e, found, _⟩ := renewed
  have written := (writeMetadata_yields refresh more found h.steady.faults).traces
    (fun s' w' => w' = w ∧ s'.clock = s.clock)
    (writeMetadata_asks (P := fun r => r = .recordRefresh id refresh) rfl more)
    (by
      rintro _ s' _ rfl ⟨rfl, clock⟩
      obtain ⟨catalog, faults, same⟩ := s'.perform_ofRows (r := .recordRefresh id refresh) rfl
      rw [Trail.note_eq rfl, same]
      exact ⟨rfl, clock⟩) ⟨rfl, rfl⟩
  refine written.mono ?_ fun _ _ failed => failed.1.elim fun _ never => never
  rintro _ s' _ ⟨⟨hrows, engine, faults⟩, rfl, clock⟩
  exact h.recorded renewed found (e.definition_refreshed refresh) hrows engine faults clock

theorem materialize_explains (indexed : c.Indexed) (tables : c.TablesDistinct)
    (explains : nested.Explains c ts) :
    NestedRun.Explains (materialize setup nested) c ts := by
  intro running refreshed id s w h
  unfold materialize
  rw [traces_bind, traces_call_of rfl]
  simp only [State.perform]
  cases found : s.catalog.get? id with
  | none => exact (traces_throw _).mpr h
  | some e =>
    dsimp only
    rw [traces_bind, traces_call_of rfl, traces_bind]
    refine (compute_explains explains (h.perform (r := .now) rfl)).mono ?_ fun _ _ hb => hb
    rintro ⟨rows, asOf, refreshed'⟩ s₁ w₁ ⟨h₁, computed⟩
    -- The row can have changed meanwhile, but its table and its source are the same.
    obtain ⟨e₁, found₁⟩ : ∃ e₁, s₁.catalog.get? id = some e₁ :=
      h₁.steady.get? (by rw [← h.steady.same.isSome_get?, found]; rfl)
    have same := h.steady.definition_eq h₁.steady indexed found found₁
    have same_table : e.segment.table = e₁.segment.table := by
      rw [← e₁.definition_table, same, e.definition_table]
    have same_source : e.segment.source = e₁.segment.source := by
      rw [← e₁.definition_source, same, e.definition_source]
    dsimp only at computed ⊢
    rw [traces_bind, same_table]
    refine (h₁.written indexed tables found₁ (by rw [computed, same_source])).mono ?_
      fun _ _ never => never.elim
    rintro count s₂ w₂ ⟨h₂, renewed⟩
    rw [traces_bind, traces_call_of rfl, traces_bind]
    refine (writeMetadata_explains _ _ (h₂.perform (r := .now) rfl) (renewed.perform rfl)).mono ?_
      fun _ _ never => never.elim
    exact fun _ s₃ w₃ h₃ => (traces_pure _).mpr h₃

theorem runWith_explains (indexed : c.Indexed) (tables : c.TablesDistinct)
    (explains : nested.Explains c ts) : NestedRun.Explains (runWith setup nested) c ts := by
  intro running refreshed id s w h
  unfold runWith
  split
  · exact (traces_throw _).mpr h
  · rw [traces_bind, traces_call_of rfl, traces_bind, traces_of]
    have h₁ := h.perform (r := .emit { kind := .runStarted, rule := id }) rfl
    -- What is left is an event, and then the outcome.
    have materialized : NestedRun.Explains (materialize setup nested) c ts :=
      materialize_explains indexed tables explains
    refine Traces.outcome ((materialized (id :: running) refreshed id _ _ h₁).mono ?_
      fun _ _ h₂ => h₂) ?_
    · rintro ⟨count, refreshed'⟩ s₂ w₂ ⟨h₂, renewed⟩
      rw [traces_bind, traces_call_of rfl, traces_bind, traces_check, Program.traces_pure]
      exact (traces_pure _).mpr ⟨h₂.perform rfl, renewed.perform rfl⟩
    · intro cause s₂ w₂ h₂
      rw [traces_bind, traces_call_of rfl, traces_bind, traces_check, Program.traces_pure]
      exact h₂.perform rfl

/-- However deep a run goes, it leaves all tables explained, and its own renewed if it succeeds. -/
theorem runRule_explains (indexed : c.Indexed) (tables : c.TablesDistinct) (depth : Nat) :
    (runRule setup depth).Explains c ts := by
  induction depth with
  | zero => exact fun _ _ _ _ _ h => (traces_throw _).mpr h
  | succ depth ih => exact runWith_explains indexed tables ih

theorem execute_explains (indexed : c.Indexed) (tables : c.TablesDistinct)
    (h : Explained c ts s w) (id : RuleId) :
    (execute setup id).Traces s w (fun _ s' w' => Explained c ts s' w' ∧ Renewed s' w' id)
      (Explained c ts) := by
  unfold execute
  rw [traces_bind]
  exact (runRule_explains indexed tables _ [] [] id s w h).mono
    (fun _ _ _ h₁ => (traces_pure _).mpr h₁) fun _ _ h₁ => h₁

/-! ## Runs with their bookkeeping -/

theorem dispatch_explains (indexed : c.Indexed) (tables : c.TablesDistinct)
    (h : Explained c ts s w) (id : RuleId) (generation : Option Nat) :
    (dispatch setup id generation).Traces s w fun result s' w' =>
      Explained c ts s' w' ∧ (result.isOk = true → Renewed s' w' id) := by
  have run : ∀ s₁ w₁, Explained c ts s₁ w₁ →
      (executeLocked setup id).Traces s₁ w₁ fun result s' w' =>
        Explained c ts s' w' ∧ (result.isOk = true → Renewed s' w' id) := by
    intro s₁ w₁ h₁
    rw [executeLocked, Program.traces_bind]
    -- Locks and slots have no bearing on tables and rows.
    have released : ∀ (result : Except Failure Nat) s₂ w₂,
        Explained c ts s₂ w₂ → (result.isOk = true → Renewed s₂ w₂ id) →
        (giveBack id result).Traces s₂ w₂ fun result s' w' =>
          Explained c ts s' w' ∧ (result.isOk = true → Renewed s' w' id) := by
      intro result s₂ w₂ h₂ renewed
      rw [giveBack, Program.traces_bind, Program.traces_call_of rfl, Program.traces_bind,
        Program.traces_call_of rfl, Program.traces_bind, Program.traces_call_of rfl,
        Program.traces_pure]
      refine ⟨((h₂.perform (r := .unlock id) rfl).perform (r := .freeSlot) rfl).perform rfl,
        fun ok => ?_⟩
      exact (((renewed ok).perform (r := .unlock id) rfl).perform (r := .freeSlot) rfl).perform rfl
    refine Traces.outcome ((execute_explains indexed tables h₁ id).mono ?_ fun _ _ hb => hb) ?_
    · exact fun rows s₂ w₂ h₂ => released _ s₂ w₂ h₂.1 fun _ => h₂.2
    · exact fun cause s₂ w₂ h₂ => released _ s₂ w₂ h₂ fun ok => by cases ok
  unfold dispatch
  rw [Program.traces_bind, Program.traces_call_of rfl, Program.traces_bind,
    Program.traces_call_of rfl]
  have h₂ := (h.perform (r := .takeSlot) rfl).perform (r := .lock id) rfl
  cases generation with
  | none => exact run _ _ h₂
  | some generation =>
    rw [Program.traces_bind, Program.traces_call_of rfl]
    exact run _ _ (h₂.perform rfl)

theorem recordRun_explains (last next : Instant) (h : Explained c ts s w)
    (renewed : Renewed s w id) :
    Explained c ts (s.perform (.recordRun id last next)).2 w := by
  have ⟨e, found, _⟩ := renewed
  have recorded : (s.perform (.recordRun id last next)).2 =
      { s with
        catalog := { s.catalog with rows := Assoc.put id (e.ran last next) s.catalog.rows }
        faults := {} } := by
    simp only [State.perform, State.recordRun, h.steady.faults, Fault.trip, Catalog.recordRun,
      Catalog.modify, found]
  generalize (s.perform (.recordRun id last next)).2 = s' at recorded ⊢
  exact (h.recorded renewed found (e.definition_ran last next) (by rw [recorded])
    (by rw [recorded]) (by rw [recorded]) (by rw [recorded])).1

/-- The times of a run are written down only if it has renewed the table. -/
theorem complete_explains (h : Explained c ts s w) (generation : Option Nat) (schedule : Schedule)
    (previous : Instant) {result : Except Failure Nat}
    (renewed : result.isOk = true → Renewed s w id) :
    (complete setup id generation schedule previous result).Traces s w
      fun _ => Explained c ts := by
  -- A job learns when it is due.
  have finish : ∀ (generation : Nat) (next : Instant) (s₁ : State), Explained c ts s₁ w →
      (Program.call (.finishJob id generation next) >>= fun _ => pure (some next)).Traces s₁ w
        fun _ => Explained c ts := by
    intro generation next s₁ h₁
    rw [Program.traces_bind, Program.traces_call_of rfl, Program.traces_pure]
    exact h₁.perform rfl
  unfold complete
  rw [Program.traces_bind, Program.traces_call_of rfl]
  have h₁ := h.perform (r := .now) rfl
  cases dueAfter? setup.running schedule previous (s.perform .now).1 result with
  | none => exact (Program.traces_pure _).mpr h₁
  | some next =>
    dsimp only
    split
    · next ok =>
      rw [Program.traces_bind, Program.traces_call_of rfl]
      have h₂ := recordRun_explains (s.perform .now).1 next h₁ ((renewed ok).perform rfl)
      cases generation with
      | none => exact (Program.traces_pure _).mpr h₂
      | some generation => exact finish generation next _ h₂
    · cases generation with
      | none => exact (Program.traces_pure _).mpr h₁
      | some generation => exact finish generation next _ h₁

theorem passOver_explains (indexed : c.Indexed) (tables : c.TablesDistinct) (began : Instant)
    (entries : List Entry) (report : PassReport) (h : Explained c ts s w) :
    (passOver setup began entries report).Traces s w fun _ => Explained c ts := by
  induction entries generalizing report s w with
  | nil => exact (Program.traces_pure _).mpr h
  | cons e rest ih =>
    unfold passOver
    rw [Program.traces_bind, Program.traces_call_of rfl, Program.traces_bind]
    refine (dispatch_explains indexed tables (h.perform (r := .jobGeneration e.id) rfl) e.id
      _).mono ?_
    rintro result s₁ w₁ ⟨h₁, renewed⟩
    dsimp only
    rw [Program.traces_bind]
    refine (complete_explains h₁ _ e.rule.schedule _ renewed).mono fun next s₂ w₂ h₂ => ?_
    cases next with
    | none => exact (Program.traces_pure _).mpr h₂
    | some next => exact ih _ h₂

/-- A pass leaves all tables explained. -/
theorem runPass_explains (indexed : c.Indexed) (tables : c.TablesDistinct)
    (h : Explained c ts s w) : (runPass setup).Traces s w fun _ => Explained c ts := by
  unfold runPass
  rw [Program.traces_bind, Program.traces_call_of rfl, Program.traces_bind,
    Program.traces_call_of rfl]
  exact passOver_explains indexed tables _ _ _ ((h.perform (r := .now) rfl).perform rfl)

/-- A manual run leaves all tables explained. -/
theorem manualRun_explains (indexed : c.Indexed) (tables : c.TablesDistinct)
    (h : Explained c ts s w) (run : ManualRun) :
    (manualRun setup run).Traces s w fun _ => Explained c ts := by
  unfold manualRun
  rw [Program.traces_bind]
  refine (dispatch_explains indexed tables h run.rule none).mono ?_
  rintro result s₁ w₁ ⟨h₁, renewed⟩
  dsimp only
  split
  · next ok =>
    rw [Program.traces_bind, Program.traces_call_of rfl, Program.traces_bind,
      Program.traces_call_of rfl, Program.traces_bind, Program.traces_call_of rfl,
      Program.traces_call_of rfl]
    have h₂ := (h₁.perform (r := .now) rfl).perform (r := .getRow run.rule) rfl
    have renewed₂ := ((renewed ok).perform (r := .now) rfl).perform (r := .getRow run.rule) rfl
    exact (recordRun_explains _ _ h₂ renewed₂).perform rfl
  · rw [Program.traces_call_of rfl]
    exact h₁.perform rfl

end Cohort
