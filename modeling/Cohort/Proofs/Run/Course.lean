import Cohort.Proofs.Run.Conduct
import Cohort.Proofs.Run.Failures

/-!
# The course of a run

A run tells that it starts, has its operands refreshed, computes its rows, writes them, writes down
that it has, and tells how it ended. Everything that can fail does so before the table is written,
but for the metadata: if these cannot be written down, the failure says that the table was written.

## Main definitions

* `Writes`, `Ends` — how a run ends after its rows were computed, or were not
* `Inside` — what happens between the start and the end of a run
* `Course` — the course of a run from its start to its end

## Main results

* `materialize_inside`, `runWith_course` — a run takes its course, if nested runs do
* `runRule_conducted`, `execute_course` — a run takes its course, however deep it goes
-/

namespace Cohort

open Cohort.Action

variable {setup : Setup} {nested : NestedRun} {running refreshed refreshed' : List RuleId}
  {id : RuleId} {c : Catalog} {silent onDemand : Bool} {s s' s'' x : State} {e : Entry}
  {told : List Event}

/-! ## The rows of a rule -/

/-- The rows of a rule are those that its source stands for, over the tables that its operands have
been left with. -/
theorem compute_conducts (running refreshed : List RuleId) (started : Instant)
    (indexed : c.Indexed) (conducted : nested.Conducted setup.running.refreshStale silent c)
    (stands : Stands c x) (found : x.catalog.get? id = some e) :
    (compute setup nested running refreshed e started).Follows (.among (Disturbs silent)) x
      (fun computed x' =>
        Completes setup.running.refreshStale c (Below c running refreshed id) refreshed x
          computed.2.2 x' ∧
        (setup.running.refreshStale = true → ∀ p, DependsOn c.list id p → x.catalog.Unwritten p →
          p ∈ computed.2.2) ∧
        e.segment.source.CanYield silent x'.engine.transactions x'.tableOf computed.1)
      (Proceeds (Below c running refreshed id) x) := by
  have depends : ∀ p, DependsOn c.list id p ↔ p ∈ e.parents :=
    fun p => stands.dependsOn indexed found
  obtain rfl : e.id = id := stands.indexed.id_of_get? found
  unfold compute
  split
  · next q source =>
    refine follows_bind.mpr ((computeBase_reads q).mono ?_ fun x₁ still => ⟨[], .still still⟩)
    rintro rows x₁ ⟨still, yields⟩
    refine (follows_pure _).mpr ⟨.still still, fun _ p hp => ?_, ?_⟩
    · have none : e.parents = [] := by
        rw [Entry.parents, source]
        rfl
      rw [depends, none] at hp
      cases hp
    · rw [source, still.transactions, still.tableOf]
      exact yields
  · next dependencies operation residual source =>
    have parents : e.parents = dependencies := by
      rw [Entry.parents, source]
      rfl
    simp only [parents] at depends
    -- However the operands were looked after, their tables are combined as they are then.
    have combines : ∀ (refreshed' : List RuleId) (x₁ : State),
        Completes setup.running.refreshStale c (Below c running refreshed e.id) refreshed x
          refreshed' x₁ →
        (setup.running.refreshStale = true →
          ∀ d ∈ dependencies, x.catalog.Unwritten d → d ∈ refreshed') →
        (computeComposite e.id dependencies operation residual >>= fun result =>
          pure (result.1, result.2, refreshed') :
            Action (Dataset × Instant × List RuleId)).Follows (.among (Disturbs silent)) x₁
          (fun computed x' =>
            Completes setup.running.refreshStale c (Below c running refreshed e.id) refreshed x
              computed.2.2 x' ∧
            (setup.running.refreshStale = true → ∀ p, DependsOn c.list e.id p →
              x.catalog.Unwritten p → p ∈ computed.2.2) ∧
            e.segment.source.CanYield silent x'.engine.transactions x'.tableOf computed.1)
          (Proceeds (Below c running refreshed e.id) x) := by
      intro refreshed' x₁ completes looked_after
      refine follows_bind.mpr ((computeComposite_reads_among ..).mono ?_
        fun x₂ still => (completes.then_still still).proceeds)
      rintro ⟨rows, asOf⟩ x₂ ⟨still, rfl⟩
      refine (follows_pure _).mpr ⟨completes.then_still still,
        fun demanded p hp => looked_after demanded p ((depends p).mp hp), .inl ?_⟩
      rw [source, still.transactions, still.tableOf]
    split
    · refine follows_bind.mpr ((refreshDependencies_conducts conducted stands
        fun d => (depends d).mpr).mono ?_ fun _ failed => failed)
      rintro refreshed' x₁ ⟨completes, looked_after⟩
      exact combines refreshed' x₁ completes fun _ => looked_after
    · next not_on_demand =>
      exact combines refreshed x (.still (.refl x)) fun demanded =>
        absurd demanded not_on_demand

/-! ## The end of a run -/

/-- The table of a rule was written with rows that its source can yield. -/
structure Writes (silent : Bool) (id : RuleId) (s : State) (e : Entry) (rows : Dataset)
    (s' : State) : Prop where
  found : s.catalog.get? id = some e
  yields : e.segment.source.CanYield silent s.engine.transactions s.tableOf rows
  tables : s'.engine.tables = Assoc.put e.segment.table rows s.engine.tables
  transactions : s'.engine.transactions = s.engine.transactions

/-- How a run ends, from the state in which its rows were computed or its last operand was looked
after. -/
inductive Ends (silent : Bool) (id : RuleId) (s : State) :
    Except Failure (Nat × List RuleId) → State → Prop
  /-- The run fails, and its table is not written. -/
  | unwritten {failure : Failure} {s' : State} (whole : failure.isPartial = false)
      (same : SameData s s') : Ends silent id s (.error failure) s'
  /-- The table is written, but this is not written down. -/
  | unrecorded {e : Entry} {rows : Dataset} {cause : Failure} {s' : State}
      (writes : Writes silent id s e rows s') (catalog : s'.catalog = s.catalog) :
      Ends silent id s (.error (.metadataUpdate id rows.length cause)) s'
  /-- The table is written, and this is written down. -/
  | recorded {e : Entry} {rows : Dataset} {refresh : Refresh} {refreshed : List RuleId} {s' : State}
      (writes : Writes silent id s e rows s') (count : refresh.rowCount = rows.length)
      (row : s'.catalog.rows = Assoc.put id (e.refreshed refresh) s.catalog.rows) :
      Ends silent id s (.ok (rows.length, refreshed)) s'

variable {rows : Dataset} {result : Except Failure (Nat × List RuleId)}

theorem Writes.then_same (h : Writes silent id s e rows s') (same : SameData s' s'') :
    Writes silent id s e rows s'' :=
  { h with
    tables := same.tables.trans h.tables
    transactions := same.transactions.trans h.transactions }

theorem Writes.table? (h : Writes silent id s e rows s') (name : String) :
    s'.engine.table? name = if e.segment.table = name then some rows else s.engine.table? name := by
  rw [Engine.table?, h.tables, Assoc.get?_put]
  rfl

theorem Ends.then_same (h : Ends silent id s result s') (same : SameData s' s'') :
    Ends silent id s result s'' := by
  cases h with
  | unwritten whole same' => exact .unwritten whole (same'.trans same)
  | unrecorded writes catalog =>
    exact .unrecorded (writes.then_same same) (same.catalog.trans catalog)
  | recorded writes count row =>
    exact .recorded (writes.then_same same) count (by rw [same.catalog, row])

/-- A run that succeeds leaves as many rows as it says. -/
theorem Ends.exists_table {count : Nat} (h : Ends silent id s (.ok (count, refreshed)) s') :
    ∃ e rows, s.catalog.get? id = some e ∧ s'.engine.table? e.segment.table = some rows ∧
      rows.length = count := by
  cases h with
  | recorded writes _ _ => exact ⟨_, _, writes.found, by rw [writes.table?, if_pos rfl], rfl⟩

/-- Only the rule that has run was touched. -/
theorem Ends.keeps (h : Ends silent id s result s') : Keeps (· = id) s s' := by
  have tables : ∀ e rows, Writes silent id s e rows s' → ∀ name,
      (∀ a e, a = id → s.catalog.get? a = some e → e.segment.table ≠ name) →
      s'.engine.table? name = s.engine.table? name := fun e rows writes name apart => by
    rw [writes.table?, if_neg (apart id e rfl writes.found)]
  cases h with
  | unwritten whole same => exact same.keeps
  | unrecorded writes catalog =>
    exact
      { indexed := fun indexed => catalog ▸ indexed
        rows := catalog ▸ .refl _
        others := fun _ _ => by rw [catalog]
        tables := tables _ _ writes
        transactions := writes.transactions }
  | recorded writes count row =>
    exact
      { indexed := fun indexed => indexed.put_refreshed writes.found row
        rows := .of_put writes.found row
        others := fun a other => by
          rw [Catalog.get?_of_put_at row, if_neg fun same => other same.symm]
        tables := tables _ _ writes
        transactions := writes.transactions }

/-! ## From the row to the metadata -/

/-- The table of a rule is written, or the engine refuses this and nothing changes. -/
theorem writeTable_ends (found : s.catalog.get? id = some e)
    (yields : e.segment.source.CanYield silent s.engine.transactions s.tableOf rows) :
    (orFail id (Program.call (.writeTable e.segment.table rows))).outcome.Follows
      (.among (Disturbs silent)) s fun result x' => x'.log = s.log ∧
        match result with
        | .ok count => count = rows.length ∧ Writes silent id s e rows x' ∧ x'.catalog = s.catalog
        | .error failure => failure.isPartial = false ∧ SameData s x' := by
  refine Program.follows_among_bind fun x₁ change => (Program.follows_pure _).mpr ?_
  have still := change.still
  rw [State.perform]
  by_cases fails : x₁.engine.failingWrites.contains e.segment.table = true
  · have refused : x₁.engine.writeTable e.segment.table rows =
        (.error (.writeRefused e.segment.table), x₁.engine) := if_pos fails
    rw [refused]
    exact ⟨still.log, rfl, still.toSameData⟩
  · have written : x₁.engine.writeTable e.segment.table rows = (.ok rows.length,
        { x₁.engine.putTable e.segment.table rows with writes := x₁.engine.writes + 1 }) :=
      if_neg fails
    rw [written]
    refine ⟨still.log, rfl, ⟨found, yields, ?_, still.transactions⟩, still.catalog⟩
    rw [← still.tables]
    rfl

/-- A refresh is written down, or the catalogue refuses this and the program goes on otherwise. -/
theorem recordRefresh_ends {refresh : Refresh} {refreshed : List RuleId}
    {again : Failure → Action Unit} (log : x.log = told) (writes : Writes silent id s e rows x)
    (catalog : x.catalog = s.catalog) (count : refresh.rowCount = rows.length)
    (refused : ∀ cause x', x'.log = told → Writes silent id s e rows x' →
      x'.catalog = s.catalog → (again cause).outcome.Follows (.among (Disturbs silent)) x'
        fun result x' => x'.log = told ∧
          Ends silent id s (result.map fun _ => (rows.length, refreshed)) x') :
    (Action.call (.recordRefresh id refresh) >>= fun answer =>
      match answer with
      | .ok () => pure ()
      | .error cause => again cause).outcome.Follows (.among (Disturbs silent)) x fun result x' =>
        x'.log = told ∧ Ends silent id s (result.map fun _ => (rows.length, refreshed)) x' := by
  refine outcome_follows_among_bind fun x₁ change => ?_
  have same_catalog := change.still.catalog.trans catalog
  have writes₁ := writes.then_same change.still.toSameData
  rcases State.perform_recordRefresh_cases (same_catalog ▸ writes.found) refresh
    with ⟨cause, answer, still⟩ | ⟨answer, row, engine, same_log⟩
  · rw [answer]
    exact refused cause _ (by rw [still.log, change.still.log, log])
      (writes₁.then_same still.toSameData) (still.catalog.trans same_catalog)
  · rw [answer]
    refine (Program.follows_pure _).mpr ⟨by rw [same_log, change.still.log, log], ?_⟩
    refine .recorded { writes₁ with tables := ?_, transactions := ?_ } count (same_catalog ▸ row)
    · rw [engine, writes₁.tables]
    · rw [engine, writes₁.transactions]

/-- After the table was written, the refresh is written down at one of several attempts, or the run
fails with the news that the table was written. -/
theorem writeMetadata_ends {refresh : Refresh} (refreshed : List RuleId) (more : Nat)
    (log : x.log = told) (writes : Writes silent id s e rows x) (catalog : x.catalog = s.catalog)
    (count : refresh.rowCount = rows.length) :
    (writeMetadata id refresh more).outcome.Follows (.among (Disturbs silent)) x fun result x' =>
      x'.log = told ∧ Ends silent id s (result.map fun _ => (rows.length, refreshed)) x' := by
  induction more generalizing x with
  | zero =>
    rw [writeMetadata]
    refine recordRefresh_ends log writes catalog count fun cause x' log' writes' catalog' => ?_
    refine (Program.follows_pure _).mpr ⟨log', ?_⟩
    rw [count]
    exact .unrecorded writes' catalog'
  | succ fewer ih =>
    rw [writeMetadata]
    exact recordRefresh_ends log writes catalog count fun cause x' log' writes' catalog' =>
      ih log' writes' catalog'

/-- The course of a run within its start and its end. -/
structure Inside (onDemand silent : Bool) (c : Catalog) (running refreshed : List RuleId)
    (id : RuleId) (s : State) (inner : List Event) (computed : State)
    (result : Except Failure (Nat × List RuleId)) (s' : State) : Prop where
  conducts : Conducts (Below c running refreshed id) s inner computed
  ends : Ends silent id computed result s'
  log : s'.log = computed.log
  refreshes : ∀ count refreshed', result = .ok (count, refreshed') →
    Refreshes onDemand (DependsOn c.list) refreshed s.catalog inner refreshed' computed.catalog ∧
      (onDemand = true → ∀ p, DependsOn c.list id p → s.catalog.Unwritten p → p ∈ refreshed')

/-- Between the start and the end of a run there are the runs of its operands, and then its own
table is written or not. -/
theorem materialize_inside (indexed : c.Indexed)
    (conducted : nested.Conducted setup.running.refreshStale silent c) (stands : Stands c x)
    (own : id ∈ running) :
    (materialize setup nested running refreshed id).outcome.Follows (.among (Disturbs silent)) x
      fun result x' => ∃ inner computed, Inside setup.running.refreshStale silent c running
        refreshed id x inner computed result x' := by
  unfold materialize
  refine outcome_follows_among_bind fun x₁ change₁ => ?_
  have still₁ := change₁.still
  have row : (x₁.perform (.getRow id)).1 = x.catalog.get? id := by
    rw [← still₁.catalog]
    rfl
  rw [row]
  cases found : x.catalog.get? id with
  | none =>
    refine (Program.follows_pure _).mpr ⟨[], x, .still (.refl x), ?_, still₁.log, nofun⟩
    exact .unwritten rfl still₁.toSameData
  | some e =>
    refine outcome_follows_among_bind fun x₂ change₂ => ?_
    have still₂ : Still x (x₂.perform .now).2 :=
      (still₁.trans change₂.still).trans (x₂.perform_still rfl)
    have found₂ : (x₂.perform .now).2.catalog.get? id = some e := by rw [still₂.catalog, found]
    have computing := compute_conducts running refreshed (x₂.perform .now).1 indexed conducted
      (still₂.stands stands) found₂
    refine outcome_follows_bind.mpr (computing.outcome_raises (compute_raises ..) ?_ ?_)
    · rintro ⟨rows, asOf, refreshed'⟩ x₃ ⟨⟨inner, conducts, refreshes⟩, covers, yields⟩
      -- The run of the rule is in progress, so none of the nested runs has touched its row.
      have same := conducts.keeps.others id fun ran => (conducts.orderly.allowed id ran).2.1 own
      have found₃ : x₃.catalog.get? id = some e := by rw [same, still₂.catalog, found]
      have inside := conducts.after_still still₂
      rw [still₂.catalog] at refreshes covers
      refine outcome_follows_bind.mpr ((writeTable_ends found₃ yields).mono ?_)
      rintro (failure | count) x₄ ⟨log₄, written⟩
      · exact ⟨inner, x₃, inside, .unwritten written.1 written.2, log₄, nofun⟩
      obtain ⟨rfl, writes, catalog⟩ := written
      refine outcome_follows_among_bind fun x₅ change₅ => ?_
      have still₅ : Still x₄ (x₅.perform .now).2 := change₅.still.trans (x₅.perform_still rfl)
      refine outcome_follows_bind.mpr ((writeMetadata_ends refreshed' _
        (still₅.log.trans log₄) (writes.then_same still₅.toSameData)
        (still₅.catalog.trans catalog) rfl).mono ?_)
      rintro (failure | done) x₆ ⟨log₆, ends⟩
      · exact ⟨inner, x₃, inside, ends, log₆, nofun⟩
      · refine (Program.follows_pure _).mpr ⟨inner, x₃, inside, ends, log₆, ?_⟩
        intro count refreshed'' same_result
        cases same_result
        exact ⟨refreshes, covers⟩
    -- Whatever fails in a computation says nothing of a table that was written.
    · rintro failure x₃ ⟨inner, conducts⟩ raised
      exact ⟨inner, x₃, conducts.after_still still₂, .unwritten raised.not_partial (.refl x₃), rfl,
        nofun⟩

/-! ## From the start to the end -/

/-- The course of a run: what was told, the state in which its rows were computed or its last
operand was looked after, and how it ended. -/
structure Course (onDemand silent : Bool) (c : Catalog) (running refreshed : List RuleId)
    (id : RuleId) (s : State) (inner : List Event) (computed : State)
    (result : Except Failure (Nat × List RuleId)) (s' : State) : Prop where
  log : s'.log = s.log ++
    ({ kind := .runStarted, rule := id } :: inner ++ [Event.ofRun id (result.map (·.1))])
  orderly : Orderly (Below c (id :: running) refreshed id) inner
  keeps : Keeps (· ∈ startsOf inner) s computed
  ends : Ends silent id computed result s'
  refreshes : ∀ count refreshed', result = .ok (count, refreshed') →
    Refreshes onDemand (DependsOn c.list) refreshed s.catalog
      ({ kind := .runStarted, rule := id } :: inner ++ [Event.ofRun id (result.map (·.1))])
      refreshed' s'.catalog

/-- A run that succeeds is added to the runs of its operands. -/
theorem Refreshes.frame {inner : List Event} {computed : Catalog} {count : Nat} {refresh : Refresh}
    {depends : RuleId → RuleId → Prop}
    (h : Refreshes onDemand depends refreshed c inner refreshed' computed)
    (covers : onDemand = true → ∀ p, depends id p → c.Unwritten p → p ∈ refreshed')
    (other : id ∉ startsOf inner) (same : computed.get? id = c.get? id)
    (found : computed.get? id = some e)
    (row : s'.catalog.rows = Assoc.put id (e.refreshed refresh) computed.rows) :
    Refreshes onDemand depends refreshed c
      ({ kind := .runStarted, rule := id } :: inner ++ [Event.ofRun id (.ok count)])
      (id :: refreshed') s'.catalog := by
  have started : ∀ a, a ∈ startsOf ({ kind := .runStarted, rule := id } :: inner ++
      [Event.ofRun id (.ok count)]) ↔ a = id ∨ a ∈ startsOf inner := by
    simp
  refine ⟨fun event he => ?_, fun a ha => ?_, fun a => ?_, fun demanded a ha p hp never => ?_⟩
  · simp only [List.cons_append, List.mem_cons, List.mem_append, List.not_mem_nil, or_false] at he
    rcases he with rfl | he | rfl
    · exact .inl rfl
    · exact h.succeeds event he
    · exact .inr rfl
  -- The row of the rule is the one from before, as no other run has touched it.
  · rw [Catalog.get?_of_put_at row]
    rcases (started a).mp ha with rfl | ha
    · exact ⟨e, refresh, same ▸ found, if_pos rfl⟩
    · rw [if_neg (fun own : id = a => other (own ▸ ha))]
      exact h.renews a ha
  · rw [started, List.mem_cons, h.counts]
    tauto
  · refine List.mem_cons_of_mem id ?_
    rcases (started a).mp ha with rfl | ha
    · exact covers demanded p hp never
    · exact h.covers demanded a ha p hp never

/-- A run of a rule whose run is not in progress. -/
theorem runWith_course (indexed : c.Indexed)
    (conducted : nested.Conducted setup.running.refreshStale silent c) (stands : Stands c x)
    (not_running : id ∉ running) :
    (runWith setup nested running refreshed id).outcome.Follows (.among (Disturbs silent)) x
      fun result x' => ∃ inner computed, Course setup.running.refreshStale silent c running
        refreshed id x inner computed result x' := by
  unfold runWith
  rw [if_neg (by simpa using not_running)]
  refine outcome_follows_among_bind fun x₁ change₁ => ?_
  -- From here on the run is told to have started.
  have same₁ : SameData x (x₁.perform (.emit { kind := .runStarted, rule := id })).2 :=
    change₁.still.toSameData.trans (x₁.perform_sameData rfl)
  have log₁ : (x₁.perform (.emit { kind := .runStarted, rule := id })).2.log =
      x.log ++ [{ kind := .runStarted, rule := id }] :=
    congrArg (· ++ _) change₁.still.log
  generalize (x₁.perform (.emit { kind := .runStarted, rule := id })).2 = x₂ at same₁ log₁ ⊢
  refine outcome_follows_of_bind.mpr ((materialize_inside indexed conducted
    (same₁.stands stands) List.mem_cons_self).mono ?_)
  rintro result x₃ ⟨inner, computed, inside⟩
  -- A rule whose run is in progress is not run again.
  have other : id ∉ startsOf inner := fun ran =>
    (inside.conducts.orderly.allowed id ran).2.1 List.mem_cons_self
  refine outcome_follows_among_bind fun x₄ change₄ => ?_
  have same₄ : SameData x₃ (x₄.perform (.emit (Event.ofRun id (result.map (·.1))))).2 :=
    change₄.still.toSameData.trans (x₄.perform_sameData rfl)
  have log₄ : (x₄.perform (.emit (Event.ofRun id (result.map (·.1))))).2.log = x.log ++
      ({ kind := .runStarted, rule := id } :: inner ++ [Event.ofRun id (result.map (·.1))]) := by
    change x₄.log ++ _ = _
    rw [change₄.still.log, inside.log, inside.conducts.log, log₁]
    simp
  generalize (x₄.perform (.emit (Event.ofRun id (result.map (·.1))))).2 = x₅ at same₄ log₄ ⊢
  have ends := inside.ends.then_same same₄
  have keeps := same₁.keeps.trans inside.conducts.keeps
  cases result with
  | error failure =>
    refine (Program.follows_pure _).mpr
      ⟨inner, computed, log₄, inside.conducts.orderly, keeps, ?_, nofun⟩
    exact ends
  | ok done =>
    obtain ⟨count, refreshed₁⟩ := done
    refine (Program.follows_pure _).mpr
      ⟨inner, computed, log₄, inside.conducts.orderly, keeps, ?_, ?_⟩
    · cases ends with
      | recorded writes count row => exact .recorded writes count row
    · intro count' refreshed' same_result
      cases same_result
      obtain ⟨refreshes, covers⟩ := inside.refreshes count refreshed₁ rfl
      cases ends with
      | recorded writes _ row =>
        rw [same₁.catalog] at refreshes covers
        exact refreshes.frame covers other (keeps.others id other) writes.found row

variable {inner : List Event} {computed : State} {result : Except Failure (Nat × List RuleId)}

/-- The course of a run, as one of the runs that go on within another. -/
theorem Course.conducts
    (h : Course onDemand silent c running refreshed id s inner computed result s')
    (not_running : id ∉ running) (fresh : id ∉ refreshed) :
    Conducts (Reached c running refreshed id) s
      ({ kind := .runStarted, rule := id } :: inner ++ [Event.ofRun id (result.map (·.1))]) s' where
  log := h.log
  orderly := by
    refine Orderly.frame (h.orderly.mono ?_) ⟨.refl, not_running, fresh⟩
      (fun ran => (h.orderly.allowed id ran).2.1 List.mem_cons_self) _
    rintro a ⟨reached, apart, fresh_a⟩
    exact ⟨reached.to_reflTransGen, fun ha => apart (List.mem_cons_of_mem id ha), fresh_a⟩
  keeps := by
    refine (h.keeps.mono fun a ha => ?_).trans (h.ends.keeps.mono fun a ha => ?_)
    · simp [ha]
    · simp [ha]

theorem runWith_conducted (indexed : c.Indexed)
    (conducted : nested.Conducted setup.running.refreshStale silent c) :
    (runWith setup nested).Conducted setup.running.refreshStale silent c := by
  intro running refreshed id x stands fresh
  by_cases in_progress : id ∈ running
  · unfold runWith
    rw [if_pos (by simpa using in_progress)]
    exact (follows_throw _).mpr ⟨[], .still (.refl x)⟩
  · refine follows_check.mpr ((runWith_course indexed conducted stands in_progress).mono ?_)
    rintro (failure | ⟨count, refreshed'⟩) x' ⟨inner, computed, course⟩
    · exact ⟨_, course.conducts in_progress fresh⟩
    · have refreshes := course.refreshes count refreshed' rfl
      exact ⟨⟨_, course.conducts in_progress fresh, refreshes⟩,
        (refreshes.counts id).mpr (.inr (by simp))⟩

/-- However deep a run goes, it goes as runs go. -/
theorem runRule_conducted (indexed : c.Indexed) (depth : Nat) :
    (runRule setup depth).Conducted setup.running.refreshStale silent c := by
  induction depth with
  | zero => exact fun _ _ _ x _ _ => (follows_throw _).mpr ⟨[], .still (.refl x)⟩
  | succ depth ih => exact runWith_conducted indexed ih

/-- The course of a run by itself. -/
theorem execute_course (setup : Setup) (silent : Bool) (indexed : s.catalog.Indexed) (id : RuleId) :
    (execute setup id).outcome.Follows (.among (Disturbs silent)) s fun result s' =>
      ∃ refreshed inner computed, Course setup.running.refreshStale silent s.catalog [] [] id s
        inner computed (result.map (·, refreshed)) s' := by
  unfold execute
  refine outcome_follows_bind.mpr ((runWith_course indexed (runRule_conducted indexed RuleId.count)
    ⟨indexed, .refl _⟩ List.not_mem_nil).mono ?_)
  rintro (failure | ⟨count, refreshed⟩) s' ⟨inner, computed, course⟩
  · exact ⟨[], inner, computed, course⟩
  · exact (Program.follows_pure _).mpr ⟨refreshed, inner, computed, course⟩

end Cohort
