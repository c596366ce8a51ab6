import Cohort.Proofs.Catalog.Consistency
import Cohort.Proofs.Manager.History
import Cohort.Proofs.Scheduler.Board

/-!
# Failed changes

Creating, changing and deleting a rule can fail before anything is planned, while it is planned,
in the catalogue, and after the row is in place, when no job can be put in place for it. The last
of these is undone: the row goes, or the row from before comes back under its old name. Either
way nothing is left of the change but a number: an identifier that was taken, or two versions.

## Main definitions

* `NoTrace` — what a failed change leaves as it was
* `Served` — the states of a system whose catalogue and engine refuse nothing without a reason
* `State.Tidy` — what holds in all these states

## Main results

* `Mutation.program_spec` — the outcome of a change in a tidy state
* `failed_change_leaves_no_trace` — failed changes leave no trace in any such state
-/

namespace Cohort

open Cohort.Action

variable {setup : Setup} {s s' : State} {c c' : Catalog} {b b' : JobBoard} {e current : Entry}
  {id : RuleId} {patch : RulePatch} {m : Mutation} {failure : Failure}

/-! ## Names that are given up and taken back -/

theorem get?_renamed_back {old new : String} {names : List (String × RuleId)}
    (taken : Assoc.get? old names = some id) (free : Assoc.has new names = false) (name : String) :
    Assoc.get? name
        (Assoc.erase new (Assoc.put old id (Assoc.erase old (Assoc.put new id names)))) =
      Assoc.get? name names := by
  have unused : Assoc.get? new names = none := by simpa [Assoc.has] using free
  simp only [Assoc.get?_erase, Assoc.get?_put]
  by_cases is_new : new = name
  · rw [if_pos is_new, ← is_new, unused]
  · by_cases is_old : old = name
    · rw [if_neg is_new, if_pos is_old, ← is_old, taken]
    · simp only [if_neg is_new, if_neg is_old]

theorem get?_taken_and_freed {new : String} {names : List (String × RuleId)}
    (free : Assoc.has new names = false) (name : String) :
    Assoc.get? name (Assoc.erase new (Assoc.put new id names)) = Assoc.get? name names := by
  rw [Assoc.erase_put_of_get?_eq_none]
  simpa [Assoc.has] using free

/-! ## Jobs -/

namespace JobBoard

/-- Rules that are not active have no jobs. -/
def Fits (b : JobBoard) (c : Catalog) : Prop :=
  ∀ e ∈ c.list, e.rule.active = false → b.job? e.id = none

/-- A row is put in place, and its job is removed unless it is active. -/
theorem Fits.put (h : b.Fits c) (indexed : c.Indexed) (hr : c'.rows = Assoc.put e.id e c.rows)
    (others : ∀ a, a ≠ e.id → b'.job? a = b.job? a)
    (own : e.rule.active = false → b'.job? e.id = none) : b'.Fits c' := by
  intro x hx inactive
  rcases (indexed.mem_list_put hr).mp hx with rfl | ⟨hx, other⟩
  · exact own inactive
  · rw [others x.id other]
    exact h x hx inactive

theorem Fits.erase (h : b.Fits c) (indexed : c.Indexed) (hr : c'.rows = Assoc.erase id c.rows)
    (others : ∀ a, a ≠ id → b'.job? a = b.job? a) : b'.Fits c' := by
  intro x hx inactive
  obtain ⟨hx, other⟩ := (indexed.mem_list_erase hr).mp hx
  rw [others x.id other]
  exact h x hx inactive

/-- Jobs go, and rows change only in what runs leave behind. -/
theorem Fits.of_sameDefinitions (h : b.Fits c) (indexed : c.Indexed) (keeps : c.KeepsTo c')
    (fewer : ∀ a, b.job? a = none → b'.job? a = none) : b'.Fits c' := by
  intro e' he' inactive
  obtain ⟨e, he, same⟩ := (keeps.2 indexed).exists_mem indexed (keeps.1 indexed) he'
  have was_inactive : e.rule.active = false := by
    rw [← Entry.definition_active, same, Entry.definition_active, inactive]
  rw [← Entry.definition_id, ← same, Entry.definition_id]
  exact fewer _ (h e he was_inactive)

end JobBoard

/-! ## Scheduling -/

/-- There is nothing that could carry out the jobs of active rules. -/
def Setup.Stranded (setup : Setup) : Prop := setup.mode = .background ∧ setup.hasRuntime = false

/-- All that scheduling a rule can do: its job goes, it is refused, or it has a new job. -/
theorem schedule_cases (setup : Setup) (rule : Rule) (s : State) :
    (rule.active = false ∧ (schedule setup rule).outcome.run s =
        (.ok (), { s with board := s.board.remove rule.id })) ∨
      (rule.active = true ∧ setup.Stranded ∧ (schedule setup rule).outcome.run s =
        (.error (.scheduler .noRuntimeToSchedule), s)) ∨
      (rule.active = true ∧ ¬setup.Stranded ∧ ∃ clock next timer,
        (schedule setup rule).outcome.run s =
          (.ok (), { s with clock, board := s.board.install rule.id next timer })) := by
  unfold schedule
  by_cases active : rule.active = true
  · rw [if_neg (by simp [active])]
    split
    · next stranded =>
      exact .inr (.inl ⟨active, by simpa [Setup.Stranded] using stranded, rfl⟩)
    · next served =>
      refine .inr (.inr ⟨active, by simpa [Setup.Stranded] using served, ?_⟩)
      cases rule.nextRunAt with
      | some next => exact ⟨_, _, _, rfl⟩
      | none => exact ⟨_, _, _, rfl⟩
  · rw [Bool.not_eq_true] at active
    exact .inl ⟨active, by rw [if_pos (by simp [active])]; rfl⟩

/-! ## Tidy states -/

/-- The catalogue is consistent, rules that are not active have no jobs, and neither the catalogue
nor the engine refuses anything without a reason. -/
structure State.Tidy (s : State) : Prop where
  consistent : s.catalog.Consistent
  fits : s.board.Fits s.catalog
  faultless : s.faults = {}
  obliging : s.engine.failingDrops = []

namespace State

/-- Only one kind of request gives a rule a job. -/
theorem perform_job?_eq_none {r : Request} (adds : r.addsNoJob = true)
    (h : s.board.job? id = none) : (s.perform r).2.board.job? id = none := by
  by_cases rows : r.ofRows = true
  · obtain ⟨catalog, faults, same⟩ := s.perform_ofRows rows
    rw [same]
    exact h
  · cases r <;> simp [Request.ofRows, Request.addsNoJob] at rows adds
    case removeJob rule =>
      rw [perform, JobBoard.job?_remove]
      split
      · rfl
      · exact h
    case clearJobs => rfl
    case fireJob => exact JobBoard.job?_modify_eq_none h
    case finishJob => exact JobBoard.job?_modify_eq_none h
    case armJob => exact JobBoard.job?_modify_eq_none h
    case dropJob => exact JobBoard.job?_drop_eq_none h
    all_goals exact h

theorem perform_tidy (h : s.Tidy) {r : Request} (kept : r.leavesDefinitions = true)
    (adds : r.addsNoJob = true) : (s.perform r).2.Tidy where
  consistent := s.perform_consistent h.consistent r
  fits := h.fits.of_sameDefinitions h.consistent.indexed (s.perform_definitions kept)
    fun _ => perform_job?_eq_none adds
  faultless := perform_faultless h.faultless r
  obliging := (s.perform_switches r).2.2.2.trans h.obliging

end State

/-! ## What a failed change leaves behind -/

/-- Rows, names, jobs, the engine with its tables, and the events are as they were before a change
that failed. A rule that could not be scheduled after its change has a version that is higher by
two, and a rule that could not be created may have taken an identifier. -/
structure NoTrace (m : Mutation) (failure : Failure) (s s' : State) : Prop where
  rows : s'.catalog.rows = s.catalog.rows ∨
    ∃ id patch current, m = .update id patch ∧ failure = .scheduler .noRuntimeToSchedule ∧
      s.catalog.get? id = some current ∧
      s'.catalog.rows =
        Assoc.put id { current with version := current.version + 2 } s.catalog.rows
  names : ∀ name, Assoc.get? name s'.catalog.names = Assoc.get? name s.catalog.names
  nextId : s'.catalog.nextId = s.catalog.nextId ∨
    (∃ draft, m = .create draft) ∧ s'.catalog.nextId = s.catalog.allocate.2.nextId
  jobs : s'.board.jobs = s.board.jobs
  engine : s'.engine = s.engine
  log : s'.log = s.log

/-- Nothing is left of the rows either. -/
theorem NoTrace.of_catalog_eq (catalog : s'.catalog = s.catalog) (board : s'.board = s.board)
    (engine : s'.engine = s.engine) (log : s'.log = s.log) : NoTrace m failure s s' where
  rows := .inl (congrArg Catalog.rows catalog)
  names _ := by rw [catalog]
  nextId := .inl (congrArg Catalog.nextId catalog)
  jobs := congrArg JobBoard.jobs board
  engine := engine
  log := log

/-- The board fits the catalogue as before. -/
theorem NoTrace.fits (h : NoTrace m failure s s') (tidy : s.Tidy) : s'.board.Fits s'.catalog := by
  have same_jobs : ∀ a, s'.board.job? a = s.board.job? a := fun a => by
    rw [JobBoard.job?, h.jobs, JobBoard.job?]
  rcases h.rows with same | ⟨id, patch, current, -, -, found, hrows⟩
  · intro e he inactive
    have same_list : s'.catalog.list = s.catalog.list := by rw [Catalog.list, same, Catalog.list]
    rw [same_jobs]
    exact tidy.fits e (same_list ▸ he) inactive
  · obtain ⟨hcurrent, rfl⟩ := tidy.consistent.indexed.get?_eq_some.mp found
    refine tidy.fits.put (e := { current with version := current.version + 2 })
      tidy.consistent.indexed hrows (fun a _ => same_jobs a) fun inactive => ?_
    rw [same_jobs]
    exact tidy.fits current hcurrent inactive

/-! ## The outcome of a change -/

/-- A row was added under an identifier and a name that were free. -/
structure Catalog.Inserts (c : Catalog) (e : Entry) (c' : Catalog) : Prop where
  fresh : c.get? e.id = none
  free : Assoc.has e.rule.name c.names = false
  rows : c'.rows = Assoc.put e.id e c.rows
  names : c'.names = Assoc.put e.rule.name e.id c.names
  nextId : c'.nextId = c.nextId

/-- A rule whose row is in place gets its job in step with it, or it is refused and nothing else
happens. -/
theorem schedule_spec (tidy : s.Tidy) (hr : c'.rows = Assoc.put e.id e s.catalog.rows) :
    (schedule setup e.rule).Yields { s with catalog := c' }
      (fun _ s' => s'.board.Fits s'.catalog)
      fun failure s' => failure = .scheduler .noRuntimeToSchedule ∧ setup.Stranded ∧
        s' = { s with catalog := c' } := by
  have fits_anew : ∀ b : JobBoard, (∀ a, a ≠ e.id → b.job? a = s.board.job? a) →
      (e.rule.active = false → b.job? e.id = none) → b.Fits c' := fun b others own =>
    tidy.fits.put tidy.consistent.indexed hr others own
  rcases schedule_cases setup e.rule { s with catalog := c' }
    with ⟨-, run⟩ | ⟨-, stranded, run⟩ | ⟨active, -, clock, next, timer, run⟩
  · refine .of_run_ok run (fits_anew _ (fun a ha => ?_) fun _ => ?_)
    · exact (JobBoard.job?_remove ..).trans (if_neg ha.symm)
    · exact (JobBoard.job?_remove ..).trans (if_pos rfl)
  · exact .of_run_error run ⟨rfl, stranded, rfl⟩
  · refine .of_run_ok run (fits_anew _ (fun a ha => ?_) fun inactive => ?_)
    · exact JobBoard.job?_install_of_ne _ ha.symm ..
    · rw [active] at inactive
      cases inactive

/-- A new rule that cannot be scheduled is gone again, and its name is free. -/
theorem commitCreate_spec (tidy : s.Tidy) (inserts : s.catalog.Inserts e c')
    (warnings : List Warning) :
    (commitCreate setup e warnings).Yields { s with catalog := c' }
      (fun _ s' => s'.board.Fits s'.catalog)
      fun _ s' => ∃ names, s' = { s with catalog := { s.catalog with names } } ∧
        ∀ name, Assoc.get? name names = Assoc.get? name s.catalog.names := by
  have found : c'.get? e.id = some e := by rw [Catalog.get?_of_put inserts.rows, if_pos rfl]
  unfold commitCreate
  rw [yields_bind, yields_of, outcome_yields]
  refine (schedule_spec tidy inserts.rows).mono ?_ ?_
  · intro _ s₁ fits
    dsimp only
    rw [yields_bind, yields_call, yields_pure]
    exact fits
  · rintro failure _ ⟨-, -, rfl⟩
    dsimp only
    rw [yields_bind, yields_call, yields_throw, State.perform_removeRow (by exact tidy.faultless),
      Catalog.remove_eq found, inserts.rows, Assoc.erase_put_of_get?_eq_none inserts.fresh,
      inserts.names, inserts.nextId]
    exact ⟨_, rfl, get?_taken_and_freed inserts.free⟩

/-- A rule is created and its job is in step with it, or nothing is left of it. -/
theorem createRule_spec (tidy : s.Tidy) (d : RuleDraft) :
    (createRule setup d).Yields s (fun _ s' => s'.board.Fits s'.catalog)
      fun failure s' => NoTrace (.create d) failure s s' := by
  unfold createRule
  dsimp only
  split
  -- The name is empty.
  · exact (yields_throw _).mpr (.of_catalog_eq rfl rfl rfl rfl)
  rw [yields_bind, yields_call]
  split
  -- The name is taken.
  · exact (yields_throw _).mpr (.of_catalog_eq rfl rfl rfl rfl)
  rw [yields_bind, yields_call, yields_bind]
  simp only [State.perform]
  -- From here on an identifier is taken.
  have allocated : ∀ (failure : Failure) (clock : Clock) (names : List (String × RuleId)),
      (∀ name, Assoc.get? name names = Assoc.get? name s.catalog.names) →
        NoTrace (.create d) failure s
          { s with catalog := { s.catalog.allocate.2 with names }, clock } :=
    fun _ _ _ same => ⟨.inl rfl, same, .inr ⟨⟨d, rfl⟩, rfl⟩, rfl, rfl, rfl⟩
  refine (plan_yields d.composition _).mono ?_ ?_
  · rintro p s₁ ⟨rfl, -⟩
    rw [yields_bind, yields_call, yields_bind, yields_check, Program.yields_call]
    simp only [State.perform]
    generalize ((d.entry setup s.catalog.allocate.1 (Text.trim d.name) s.clock.read.1).withPlan p)
      = new
    rcases Catalog.insert_cases s.catalog.allocate.2 new
      with ⟨failure, unchanged⟩ | ⟨c', inserted, -, fresh, free, hrows, hnames, hnextId⟩
    · rw [unchanged]
      exact allocated failure _ _ fun _ => rfl
    · rw [inserted]
      dsimp only
      have tidy₁ : State.Tidy
          { s with catalog := s.catalog.allocate.2, clock := s.clock.read.2 } :=
        ⟨⟨⟨tidy.consistent.indexed.keyed, tidy.consistent.indexed.distinct⟩,
          tidy.consistent.valid, tidy.consistent.names⟩, tidy.fits, tidy.faultless, tidy.obliging⟩
      have inserts : Catalog.Inserts s.catalog.allocate.2 { new with version := 1 } c' :=
        ⟨fresh, free, hrows, hnames, hnextId⟩
      refine (commitCreate_spec tidy₁ inserts _).mono (fun _ _ fits => fits) ?_
      rintro failure _ ⟨names, rfl, same⟩
      exact allocated failure _ names same
  · rintro failure _ rfl
    exact allocated failure _ _ fun _ => rfl

/-- The row of a rule was replaced by the next version, and its name too if the new one was free. -/
structure Catalog.Replaces (c : Catalog) (current e : Entry) (c' : Catalog) : Prop where
  found : c.get? current.id = some current
  id : e.id = current.id
  version : e.version = current.version + 1
  free : current.rule.name = e.rule.name ∨ Assoc.has e.rule.name c.names = false
  rows : c'.rows = Assoc.put e.id e c.rows
  names : c'.names =
    if current.rule.name = e.rule.name then c.names
    else Assoc.erase current.rule.name (Assoc.put e.rule.name e.id c.names)
  nextId : c'.nextId = c.nextId

/-- The row from before can be put back, which gives all names back too. -/
theorem Catalog.Replaces.undo (h : c.Replaces current e c') (consistent : c.Consistent) :
    ∃ names, (∀ name, Assoc.get? name names = Assoc.get? name c.names) ∧
      c'.replace current e.version = (.ok { current with version := current.version + 2 },
        { c with
          rows := Assoc.put current.id { current with version := current.version + 2 } c.rows
          names }) := by
  have hcurrent := (consistent.indexed.get?_eq_some.mp h.found).1
  have taken := consistent.names current hcurrent
  have found' : c'.get? current.id = some e := by
    rw [Catalog.get?_of_put h.rows, if_pos h.id]
  have free' : e.rule.name = current.rule.name ∨ Assoc.has current.rule.name c'.names = false := by
    by_cases same : current.rule.name = e.rule.name
    · exact .inl same.symm
    · refine .inr ?_
      rw [Assoc.has, h.names, if_neg same, Assoc.get?_erase, if_pos rfl]
      rfl
  rw [Catalog.replace_eq (consistent.valid current hcurrent) found' rfl free', h.rows, h.names,
    h.version, h.id, Assoc.put_put, h.nextId]
  refine ⟨_, fun name => ?_, rfl⟩
  by_cases same : current.rule.name = e.rule.name
  · rw [if_pos same.symm, if_pos same]
  · rw [if_neg (Ne.symm same), if_neg same]
    exact get?_renamed_back taken (h.free.resolve_left same) name

/-- A changed rule that cannot be scheduled has its row from before, with its name and no other
job. -/
theorem commitUpdate_spec (tidy : s.Tidy) (replaces : s.catalog.Replaces current e c')
    (warnings : List Warning) :
    (commitUpdate setup current e warnings).Yields { s with catalog := c' }
      (fun _ s' => s'.board.Fits s'.catalog)
      fun failure s' => failure = .scheduler .noRuntimeToSchedule ∧ ∃ names board,
        s' = { s with
          catalog := { s.catalog with
            rows := Assoc.put current.id { current with version := current.version + 2 }
              s.catalog.rows
            names }
          board } ∧
        (∀ name, Assoc.get? name names = Assoc.get? name s.catalog.names) ∧
        board.jobs = s.board.jobs := by
  unfold commitUpdate
  rw [yields_bind, yields_of, outcome_yields]
  refine (schedule_spec tidy replaces.rows).mono ?_ ?_
  · intro _ s₁ fits
    dsimp only
    rw [yields_bind, yields_call, yields_pure]
    exact fits
  · rintro _ _ ⟨rfl, stranded, rfl⟩
    obtain ⟨names, same, undone⟩ := replaces.undo tidy.consistent
    dsimp only
    rw [yields_bind, yields_call, State.perform_replaceRow (by exact tidy.faultless), undone]
    dsimp only
    rw [yields_bind, yields_of, Program.yields_iff]
    -- The job from before is still there, unless the rule had none.
    rcases schedule_cases setup current.rule { s with catalog := { s.catalog with
        rows := Assoc.put current.id { current with version := current.version + 2 }
          s.catalog.rows
        names } }
      with ⟨inactive, again⟩ | ⟨-, -, again⟩ | ⟨-, served, -⟩
    · rw [again, yields_throw]
      refine ⟨rfl, names, _, rfl, same, Assoc.erase_of_get?_eq_none ?_⟩
      exact tidy.fits current (tidy.consistent.indexed.get?_eq_some.mp replaces.found).1 inactive
    · rw [again, yields_throw]
      exact ⟨rfl, names, _, rfl, same, rfl⟩
    · exact absurd stranded served

/-- One attempt to change a rule. That it is repeated does not come about, but would do no harm. -/
theorem updateOnce_spec {again : Failure → Action RuleOutcome} (tidy : s.Tidy) (clock : Clock)
    (again_spec : ∀ failure clock, (again failure).Yields { s with clock }
      (fun _ s' => s'.board.Fits s'.catalog)
      fun failure s' => NoTrace (.update id patch) failure s s') :
    (updateOnce setup id patch again).Yields { s with clock }
      (fun _ s' => s'.board.Fits s'.catalog)
      fun failure s' => NoTrace (.update id patch) failure s s' := by
  unfold updateOnce
  rw [yields_bind, yields_call]
  cases found : (State.perform { s with clock } (.getRow id)).1 with
  | none => exact (yields_throw _).mpr (.of_catalog_eq rfl rfl rfl rfl)
  | some current =>
    replace found : s.catalog.get? id = some current := found
    obtain ⟨hcurrent, rfl⟩ := tidy.consistent.indexed.get?_eq_some.mp found
    dsimp only
    rw [yields_bind]
    refine (applyPatch_yields current patch _).mono ?_ ?_
    · rintro ⟨next, warnings⟩ _ ⟨rfl, patched⟩
      dsimp only
      rw [yields_bind, yields_call, State.perform_replaceRow (by exact tidy.faultless)]
      rcases Catalog.replace_cases s.catalog next current.version
        with ⟨failure, unchanged⟩ |
          ⟨seen, c', replaced, -, hseen, -, free, hrows, hnames, hnextId⟩
      · dsimp only [State.perform]
        rw [unchanged]
        dsimp only
        split
        · exact again_spec _ _
        · exact (yields_throw _).mpr (.of_catalog_eq rfl rfl rfl rfl)
      · dsimp only [State.perform]
        rw [replaced]
        dsimp only
        obtain rfl : seen = current := by
          rw [patched.id_eq, found] at hseen
          exact (Option.some.inj hseen).symm
        have tidy₁ : State.Tidy { s with clock := clock.read.2 } :=
          ⟨tidy.consistent, tidy.fits, tidy.faultless, tidy.obliging⟩
        have replaces : s.catalog.Replaces seen { next with version := seen.version + 1 } c' :=
          ⟨found, patched.id_eq, rfl, free, hrows, hnames, hnextId⟩
        refine (commitUpdate_spec tidy₁ replaces warnings).mono (fun _ _ fits => fits) ?_
        rintro _ _ ⟨rfl, names, board, rfl, same, jobs⟩
        exact ⟨.inr ⟨_, patch, seen, rfl, rfl, found, rfl⟩, same, .inl rfl, jobs, rfl, rfl⟩
    · rintro _ _ rfl
      exact .of_catalog_eq rfl rfl rfl rfl

/-- A rule is changed and its job is in step with it, or nothing is left of the change. -/
theorem updateRule_spec (tidy : s.Tidy) (id : RuleId) (patch : RulePatch) :
    (updateRule setup id patch).Yields s (fun _ s' => s'.board.Fits s'.catalog)
      fun failure s' => NoTrace (.update id patch) failure s s' := by
  have within : ∀ (more : Nat) (clock : Clock),
      (updateWithin setup id patch more).Yields { s with clock }
        (fun _ s' => s'.board.Fits s'.catalog)
        fun failure s' => NoTrace (.update id patch) failure s s' := by
    intro more
    induction more with
    | zero =>
      exact fun clock => updateOnce_spec tidy clock fun _ _ =>
        (yields_throw _).mpr (.of_catalog_eq rfl rfl rfl rfl)
    | succ fewer ih => exact fun clock => updateOnce_spec tidy clock fun _ clock => ih clock
  exact within 2 s.clock

/-- A rule is deleted with its job, or it is refused before anything is touched. -/
theorem deleteRule_spec (tidy : s.Tidy) (id : RuleId) :
    (deleteRule setup id).Yields s (fun _ s' => s'.board.Fits s'.catalog)
      fun failure s' => NoTrace (.delete id) failure s s' := by
  unfold deleteRule
  rw [yields_bind, yields_call]
  split
  · exact (yields_throw _).mpr (.of_catalog_eq rfl rfl rfl rfl)
  · next current found =>
    have current_id : current.id = id := by simpa using List.find?_some found
    have current_mem : current ∈ s.catalog.list := List.mem_of_find?_eq_some found
    subst current_id
    have stored := tidy.consistent.indexed.mem_list.mp current_mem
    dsimp only
    split
    · exact (yields_throw _).mpr (.of_catalog_eq rfl rfl rfl rfl)
    · rw [yields_bind, yields_call, yields_bind, yields_call, yields_bind, yields_of,
        outcome_yields]
      unfold deleteLocked
      have dropped : s.engine.dropTable current.segment.table =
          (.ok (), { s.engine with
            tables := Assoc.erase current.segment.table s.engine.tables }) := by
        simp [Engine.dropTable, tidy.obliging]
      rw [yields_bind, yields_call]
      simp only [State.perform, dropped]
      rw [yields_check, Program.yields_call, State.perform_removeRow (by exact tidy.faultless),
        Catalog.remove_eq stored]
      dsimp only
      rw [yields_bind, yields_call, yields_bind, yields_call, yields_pure]
      refine tidy.fits.erase tidy.consistent.indexed rfl fun a ha => ?_
      exact (JobBoard.job?_remove ..).trans (if_neg ha.symm)

/-- A change that succeeds leaves jobs and rows in step, and one that fails leaves no trace. -/
theorem Mutation.program_spec (tidy : s.Tidy) (setup : Setup) (m : Mutation) :
    (m.program setup).Yields s fun failed s' =>
      failed.elim (s'.board.Fits s'.catalog) fun failure => NoTrace m failure s s' := by
  cases m with
  | create draft => exact yields_failure?.mpr (createRule_spec tidy draft)
  | update id patch => exact yields_failure?.mpr (updateRule_spec tidy id patch)
  | delete id => exact yields_failure?.mpr (deleteRule_spec tidy id)

/-! ## The states of a system that refuses nothing -/

/-- What can happen between two operations: a run or a job in progress makes a request, a stored
rule is scheduled, or time passes, transactions come in, jobs go off and are taken up. -/
inductive Meanwhile (setup : Setup) : State → State → Prop
  | request {s : State} (r : Request) (kept : r.leavesDefinitions = true)
      (adds : r.addsNoJob = true) : Meanwhile setup s (s.perform r).2
  | scheduled {s : State} {e : Entry} (stored : e ∈ s.catalog.list) (hasRuntime : Bool) :
      Meanwhile setup s ((schedule { setup with hasRuntime } e.rule).outcome.run s).2
  | outside {s s' : State} (catalog : s'.catalog = s.catalog) (faults : s'.faults = s.faults)
      (drops : s'.engine.failingDrops = s.engine.failingDrops)
      (jobs : ∀ id, s.board.job? id = none → s'.board.job? id = none) : Meanwhile setup s s'

/-- The states of a system whose catalogue and engine refuse nothing without a reason. Operations
are called where there is something that carries out jobs, or where there is not. -/
inductive Served (setup : Setup) : State → Prop
  | start (clock : Clock) (engine : Engine) (obliging : engine.failingDrops = []) :
      Served setup (setup.start clock engine)
  | apply {s : State} (hasRuntime : Bool) (operation : Operation) (h : Served setup s) :
      Served setup (operation.apply { setup with hasRuntime } s)
  | meanwhile {s s' : State} (h : Served setup s) (change : Meanwhile setup s s') :
      Served setup s'

namespace State.Tidy

/-- Whatever a program does, of tidiness it can break no more than the order of jobs. -/
theorem of_fits {α : Type} (h : s.Tidy) (p : Program α)
    (fits : (p.run s).2.board.Fits (p.run s).2.catalog) : (p.run s).2.Tidy := by
  have rest : (p.run s).2.catalog.Consistent ∧ (p.run s).2.faults = {} ∧
      (p.run s).2.engine.failingDrops = [] :=
    (Program.asks_any p).keeps
      (fun s => s.catalog.Consistent ∧ s.faults = {} ∧ s.engine.failingDrops = [])
      (fun r s _ hs => ⟨s.perform_consistent hs.1 r, perform_faultless hs.2.1 r,
        (s.perform_switches r).2.2.2.trans hs.2.2⟩) ⟨h.consistent, h.faultless, h.obliging⟩
  exact ⟨rest.1, fits, rest.2.1, rest.2.2⟩

theorem mutation (h : s.Tidy) (m : Mutation) : ((m.program setup).run s).2.Tidy := by
  refine h.of_fits _ ?_
  have spec := Mutation.program_spec h setup m
  rw [Program.yields_iff] at spec
  cases failed : ((m.program setup).run s).1 with
  | none =>
    rw [failed] at spec
    exact spec
  | some failure =>
    rw [failed] at spec
    exact spec.fits h

theorem operation (h : s.Tidy) (operation : Operation) : (operation.apply setup s).Tidy := by
  cases operation with
  | create draft => exact Mutation.apply_operation (.create draft) s ▸ h.mutation _
  | update id patch => exact Mutation.apply_operation (.update id patch) s ▸ h.mutation _
  | delete id => exact Mutation.apply_operation (.delete id) s ▸ h.mutation _
  | pass =>
    rw [Operation.apply]
    exact runPass_asks.keeps State.Tidy (fun _ _ task tidy => perform_tidy tidy
      (Request.leavesDefinitions_of_ofTask task) (Request.addsNoJob_of_ofTask task)) h
  | runByHand id =>
    rw [Operation.apply]
    exact runByHand_keeps State.Tidy (fun _ _ kept adds tidy => perform_tidy tidy kept adds) h id

theorem meanwhile (h : s.Tidy) (change : Meanwhile setup s s') : s'.Tidy := by
  cases change with
  | request r kept adds => exact perform_tidy h kept adds
  | @scheduled e stored hasRuntime =>
    have there : s.catalog.rows = Assoc.put e.id e s.catalog.rows :=
      (Assoc.put_of_get?_eq_some (h.consistent.indexed.mem_list.mp stored)).symm
    have spec : (schedule { setup with hasRuntime } e.rule).Yields s
        (fun _ s' => s'.board.Fits s'.catalog) fun _ s' => s'.board.Fits s'.catalog := by
      refine (schedule_spec h there).mono (fun _ _ fits => fits) ?_
      rintro _ _ ⟨-, -, rfl⟩
      exact h.fits
    exact h.of_fits _ spec.state
  | outside catalog faults drops jobs =>
    refine ⟨catalog ▸ h.consistent, ?_, faults.trans h.faultless, drops.trans h.obliging⟩
    rw [catalog]
    exact fun e he inactive => jobs _ (h.fits e he inactive)

end State.Tidy

theorem Served.tidy (h : Served setup s) : s.Tidy := by
  induction h with
  | start clock engine obliging =>
    refine ⟨.empty, fun e he => ?_, rfl, obliging⟩
    simp [Catalog.mem_list_iff, Setup.start] at he
  | apply hasRuntime operation _ ih => exact ih.operation operation
  | meanwhile _ change ih => exact ih.meanwhile change

/-- In a system whose catalogue and engine refuse nothing without a reason, a change that fails
leaves no trace, wherever it fails and whether or not there is something that carries out jobs. -/
theorem failed_change_leaves_no_trace {setup : Setup} {s : State} (served : Served setup s)
    (hasRuntime : Bool) (m : Mutation) {failure : Failure}
    (failed : ((m.program { setup with hasRuntime }).run s).1 = some failure) :
    NoTrace m failure s ((m.program { setup with hasRuntime }).run s).2 := by
  have spec := Mutation.program_spec served.tidy { setup with hasRuntime } m
  rw [Program.yields_iff, failed] at spec
  exact spec

/-- A system whose jobs fire by themselves. -/
private def firing : Setup := { mode := .background }

/-- The state after a rule was created where there is something that carries out jobs. -/
private def withJob : State :=
  Operation.apply { firing with hasRuntime := true } (firing.start (.still ⟨0, 0⟩) {})
    (.create { name := "cards", conditions := [.of "transaction_type" "=" (.text "CARD")] })

/-- The outcome of giving the rule another name where there is nothing that carries out jobs. -/
private def renamed : Option Failure × State :=
  ((Mutation.update (RuleId.ofNat 1) { name := some "all cards" }).program
    { firing with hasRuntime := false }).run withJob

theorem failed_change_leaves_no_trace_renamed :
    renamed.1 = some (.scheduler .noRuntimeToSchedule) ∧
      renamed.2.catalog.list.map (fun e => (e.rule.name, e.version)) = [("cards", 3)] ∧
      renamed.2.board.jobs = withJob.board.jobs ∧ withJob.board.jobs.length = 1 ∧
      ∀ name, Assoc.get? name renamed.2.catalog.names = Assoc.get? name withJob.catalog.names := by
  have served : Served firing withJob := .apply true _ (.start _ _ rfl)
  have failed : renamed.1 = some (.scheduler .noRuntimeToSchedule) := by decide +kernel
  have trace := failed_change_leaves_no_trace served false _ failed
  exact ⟨failed, by decide +kernel, trace.jobs, by decide +kernel, trace.names⟩

end Cohort
