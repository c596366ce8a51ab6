import Cohort.Proofs.Calendar.Times
import Cohort.Proofs.Manager.History
import Cohort.Proofs.Program.Among
import Cohort.Proofs.Scheduler.Board

/-!
# Rules and their jobs

Where jobs are run in passes only, each active rule has a job, and it waits for a time that is not
before the one in the row. A run takes the two out of step for a moment: its job is running, and
then the row is written before the job. All other requests of a run leave rules and jobs alone. So
runs bring back the order that they find, whether they succeed or fail, and whatever else happens
that leaves rows and jobs alone.

## Main definitions

* `Attends` — the job of a rule is in step with its row
* `State.InStep` — all jobs are in step with the rows, except for one that can be apart
* `Elsewhere` — what can change while an operation goes on
* `SameJobs` — no rule and no job has changed
* `Ahead` — what a pass relies on for the runs that are still to come

## Main results

* `State.InStep.perform` — a request that concerns no rule but the one that is apart
* `schedule_inStep` — a rule that is scheduled is in step with its job
* `runPass_inStep`, `manualRun_inStep` — passes and manual runs bring the order back
-/

namespace Cohort

open Cohort.Action

variable {setup : Setup} {running : Settings.Running} {s s' s'' : State} {id : RuleId}
  {apart : Option RuleId} {r : Request} {rule : Rule} {job : Job}

/-- The rule of a row. -/
def Catalog.rule? (c : Catalog) (id : RuleId) : Option Rule := (c.get? id).map Entry.rule

/-- An active rule has a time at which it is due. -/
def Rule.IsTimed (rule : Rule) : Prop := rule.active = true → rule.nextRunAt.isSome = true

/-- The job of a rule is in step with its row. An active rule has a job that is scheduled, and not
for a time before the one in the row. No other rule has a job. -/
inductive Attends : Option Rule → Option Job → Prop
  | active {rule : Rule} {job : Job} {due : Instant} (active : rule.active = true)
      (timed : rule.nextRunAt = some due) (scheduled : job.state = .scheduled)
      (onTime : due ≤ job.nextRunAt) : Attends (some rule) (some job)
  | inactive {rule : Rule} (inactive : rule.active = false) : Attends (some rule) none
  | missing : Attends none none

theorem Attends.isSome_iff {rule? : Option Rule} {job? : Option Job} (h : Attends rule? job?) :
    job?.isSome = true ↔ ∃ rule, rule? = some rule ∧ rule.active = true := by
  cases h with
  | active active _ _ _ => simp [active]
  | inactive inactive => simp [inactive]
  | missing => simp

/-- A job is scheduled, and not for a time before the one in the row. -/
theorem Attends.job_waits {rule? : Option Rule} (h : Attends rule? (some job)) :
    job.state = .scheduled ∧ ∀ rule due, rule? = some rule → rule.nextRunAt = some due →
      due ≤ job.nextRunAt := by
  cases h with
  | active _ timed scheduled onTime =>
    refine ⟨scheduled, fun rule due same at_due => ?_⟩
    obtain rfl := Option.some.inj same
    rw [timed] at at_due
    exact Option.some.inj at_due ▸ onTime

theorem Attends.isTimed {job? : Option Job} (h : Attends (some rule) job?) : rule.IsTimed := by
  intro active
  cases h with
  | active _ timed _ _ => simp [timed]
  | inactive inactive => simp [inactive] at active

/-- Rows are stored under their own identifiers, a run that failed can be tried again whenever the
clock is read, and the times of a run are written down unless the clock does not go back. -/
structure State.Timely (running : Settings.Running) (s : State) : Prop where
  indexed : s.catalog.Indexed
  retries : ∀ i, (running.retryAt? (s.clock.reading i)).isSome = true
  recorded : s.faults.run = {} ∨ s.clock.NeverGoesBack

/-- All jobs are in step with the rows, except for the job of a rule that can be apart. -/
structure State.InStep (running : Settings.Running) (apart : Option RuleId) (s : State) : Prop where
  timely : s.Timely running
  numbered : s.board.Numbered
  attends : ∀ id, apart ≠ some id → Attends (s.catalog.rule? id) (s.board.job? id)

/-! ## Requests that leave jobs alone -/

/-- The request can change the rule or the recurring job of this rule. -/
def Request.Concerns : Request → RuleId → Prop
  | .insertRow e, id => e.id = id
  | .replaceRow e _, id => e.id = id
  | .removeRow a, id | .recordRun a .., id | .installJob a .., id | .removeJob a, id |
    .fireJob a _, id | .finishJob a .., id | .armJob a .., id | .dropJob a _, id => a = id
  | .clearJobs, _ => True
  | _, _ => False

/-- The request changes neither a rule nor a recurring job. -/
def Request.LeavesJobs (r : Request) : Prop := ∀ id, ¬ r.Concerns id

theorem Request.leavesJobs_of_ofRun (h : r.ofRun = true) : r.LeavesJobs := by
  cases r <;> simp_all [ofRun, ofReading, Concerns, LeavesJobs]

namespace Catalog

variable {c c' : Catalog} {e : Entry}

theorem rule?_of_put (rows : c'.rows = Assoc.put id e c.rows) (a : RuleId) :
    c'.rule? a = if id = a then some e.rule else c.rule? a := by
  rw [rule?, get?_of_put_at rows]
  split <;> rfl

theorem rule?_of_erase (rows : c'.rows = Assoc.erase id c.rows) (a : RuleId) :
    c'.rule? a = if id = a then none else c.rule? a := by
  rw [rule?, get?_of_erase rows]
  split <;> rfl

theorem rule?_eq_some : c.rule? id = some rule ↔ ∃ e, c.get? id = some e ∧ e.rule = rule :=
  Option.map_eq_some_iff

/-- The row of a listed entry has its rule. -/
theorem Indexed.rule?_of_mem (indexed : c.Indexed) (listed : e ∈ c.list) :
    c.rule? e.id = some e.rule :=
  rule?_eq_some.mpr ⟨e, indexed.mem_list.mp listed, rfl⟩

theorem Indexed.rule?_eq_some (indexed : c.Indexed) :
    c.rule? id = some rule ↔ ∃ e ∈ c.list, e.id = id ∧ e.rule = rule := by
  simp only [Catalog.rule?_eq_some, indexed.get?_eq_some, and_assoc]

/-- A change in place. -/
theorem rule?_modify (c : Catalog) (id : RuleId) (f : Entry → Entry) (a : RuleId) :
    (c.modify id f).2.rule? a =
      if id = a then (c.get? id).map fun e => (f e).rule else c.rule? a := by
  rcases c.modify_cases id f with ⟨unchanged, missing⟩ | ⟨e, c', changed, found, rows, -⟩
  · rw [unchanged, missing]
    split
    · next same => rw [← same, rule?, missing]; rfl
    · rfl
  · rw [changed, rule?_of_put rows, found]
    rfl

end Catalog

namespace State

theorem perform_rule? (other : ¬ r.Concerns id) (s : State) :
    (s.perform r).2.catalog.rule? id = s.catalog.rule? id := by
  by_cases kept : r.leavesCatalog = true
  · rw [perform_catalog kept]
  · cases r <;> simp [Request.leavesCatalog] at kept
    case allocateId => rfl
    case insertRow e =>
      rcases s.catalog.insert_cases e with ⟨_, unchanged⟩ | ⟨c', inserted, -, -, -, rows, -⟩
      · simp only [perform, unchanged]
      · simp only [perform, inserted]
        exact (Catalog.rule?_of_put rows id).trans (if_neg other)
    case replaceRow e expected =>
      rcases replaceRow_cases s e expected
        with ⟨_, -, unchanged⟩ | ⟨_, stored, -, rfl, -, -, -, rows⟩
      · rw [unchanged]
      · exact (Catalog.rule?_of_put rows id).trans (if_neg other)
    case removeRow a =>
      rcases removeRow_cases s a with ⟨_, -, unchanged⟩ | ⟨_, -, rows⟩
      · rw [unchanged]
      · exact (Catalog.rule?_of_erase rows id).trans (if_neg other)
    case recordRefresh a refresh =>
      simp only [perform, recordRefresh]
      split
      · rfl
      · refine (Catalog.rule?_modify ..).trans ?_
        split
        · next same => rw [same]; rfl
        · rfl
    case recordRun a last next =>
      simp only [perform, recordRun]
      split
      · rfl
      · exact (Catalog.rule?_modify ..).trans (if_neg other)

theorem perform_ofRows_board (h : r.ofRows = true) (s : State) :
    (s.perform r).2.board = s.board := by
  obtain ⟨catalog, faults, same⟩ := s.perform_ofRows h
  rw [same]

theorem perform_jobs (h : r.LeavesJobs) (s : State) :
    (s.perform r).2.board.jobs = s.board.jobs ∧
      (s.perform r).2.board.lastGeneration = s.board.lastGeneration := by
  by_cases rows : r.ofRows = true
  · rw [perform_ofRows_board rows]
    exact ⟨rfl, rfl⟩
  · cases r <;> simp [Request.ofRows, Request.LeavesJobs, Request.Concerns] at rows h
    all_goals exact ⟨rfl, rfl⟩

theorem perform_job? (other : ¬ r.Concerns id) (s : State) :
    (s.perform r).2.board.job? id = s.board.job? id := by
  by_cases rows : r.ofRows = true
  · rw [perform_ofRows_board rows]
  · cases r <;> simp [Request.ofRows, Request.Concerns] at rows other
    case installJob => exact JobBoard.job?_install_of_ne _ other ..
    case removeJob => exact (JobBoard.job?_remove ..).trans (if_neg other)
    case fireJob => exact (JobBoard.job?_modify ..).trans (if_neg other)
    case finishJob => exact (JobBoard.job?_modify ..).trans (if_neg other)
    case armJob => exact (JobBoard.job?_modify ..).trans (if_neg other)
    case dropJob => exact (JobBoard.job?_drop ..).trans (if_neg fun same => other same.1)
    all_goals rfl

/-- Whatever is asked for, jobs stay numbered. -/
theorem perform_numbered (h : s.board.Numbered) (r : Request) : (s.perform r).2.board.Numbered := by
  by_cases rows : r.ofRows = true
  · rw [perform_ofRows_board rows]
    exact h
  · cases r <;> simp [Request.ofRows] at rows
    case installJob => exact h.install ..
    case removeJob => exact h.remove _
    case clearJobs => exact JobBoard.numbered_of_jobs_eq_nil rfl
    case fireJob => exact h.modify _ _ fun job => JobBoard.generation_move _ job
    case finishJob =>
      refine h.modify _ _ fun job => ?_
      dsimp only
      split
      · exact JobBoard.generation_move _ job
      · rfl
    case armJob => exact h.modify _ _ fun _ => rfl
    case dropJob => exact h.drop ..
    case enqueueRun => exact h.of_jobs_eq rfl rfl
    case closeRun => exact h.of_jobs_eq rfl rfl
    all_goals exact h

/-- What is never told to fail is not told to fail by a request. -/
theorem perform_faults_run (h : s.faults.run = {}) (r : Request) :
    (s.perform r).2.faults.run = {} := by
  cases r
  case recordRun => simp only [perform, recordRun, h, Fault.trip]
  case replaceRow => simp only [perform, replaceRow]; split <;> exact h
  case removeRow => simp only [perform, removeRow]; split <;> exact h
  case recordRefresh => simp only [perform, recordRefresh]; split <;> exact h
  all_goals exact h

theorem perform_timely (h : s.Timely running) (r : Request) :
    (s.perform r).2.Timely running where
  indexed := perform_indexed h.indexed r
  retries := by
    rw [s.perform_reading r]
    exact h.retries
  recorded := h.recorded.imp (perform_faults_run · r) (s.perform_goesOn r).neverGoesBack_iff.mpr

namespace InStep

theorem attended (h : s.InStep running none) (id : RuleId) :
    Attends (s.catalog.rule? id) (s.board.job? id) :=
  h.attends id nofun

theorem setApart (h : s.InStep running none) (id : RuleId) : s.InStep running (some id) :=
  { h with attends := fun a _ => h.attended a }

/-- The rule that was apart is in step again. -/
theorem settle (h : s.InStep running (some id))
    (own : Attends (s.catalog.rule? id) (s.board.job? id)) : s.InStep running none where
  timely := h.timely
  numbered := h.numbered
  attends a _ := by
    by_cases same : id = a
    · exact same ▸ own
    · exact h.attends a fun eq => same (Option.some.inj eq)

/-- A request concerns no rule but the one that is apart. -/
theorem perform (h : s.InStep running apart) (r : Request)
    (own : ∀ id, r.Concerns id → apart = some id) : (s.perform r).2.InStep running apart where
  timely := perform_timely h.timely r
  numbered := perform_numbered h.numbered r
  attends id other := by
    have unconcerned : ¬ r.Concerns id := fun concerned => other (own id concerned)
    rw [perform_rule? unconcerned, perform_job? unconcerned]
    exact h.attends id other

end InStep

end State

/-! ## Other changes meanwhile -/

/-- What can change while an operation goes on and between operations: everything but the rows and
the jobs. The clock is the same, and only if it never goes back, the catalogue can begin to refuse
to write down the times of runs. -/
structure Elsewhere (s s' : State) : Prop where
  catalog : s'.catalog = s.catalog
  board : s'.board = s.board
  clock : s.clock.GoesOn s'.clock
  recorded : s'.faults.run = s.faults.run ∨ s.clock.NeverGoesBack

/-- No rule and no job has changed. -/
structure SameJobs (s s' : State) : Prop where
  rules : s'.catalog.rule? = s.catalog.rule?
  jobs : s'.board.jobs = s.board.jobs
  lastGeneration : s'.board.lastGeneration = s.board.lastGeneration
  clock : s.clock.GoesOn s'.clock
  timely : ∀ running : Settings.Running, s.Timely running → s'.Timely running

theorem Elsewhere.refl (s : State) : Elsewhere s s := ⟨rfl, rfl, .refl _, .inl rfl⟩

theorem Elsewhere.sameJobs (h : Elsewhere s s') : SameJobs s s' where
  rules := by rw [h.catalog]
  jobs := by rw [h.board]
  lastGeneration := by rw [h.board]
  clock := h.clock
  timely running timely := by
    refine ⟨h.catalog ▸ timely.indexed, h.clock.reading ▸ timely.retries, ?_⟩
    rcases h.recorded, timely.recorded with ⟨same | forward, never | forward⟩
    · exact .inl (same.trans never)
    all_goals exact .inr (h.clock.neverGoesBack_iff.mpr forward)

/-- A change of rows that the catalogue refuses. -/
theorem State.refused_sameJobs (refused : (s.perform r).2.catalog = s.catalog)
    (board : (s.perform r).2.board = s.board) : SameJobs s (s.perform r).2 where
  rules := by rw [refused]
  jobs := by rw [board]
  lastGeneration := by rw [board]
  clock := s.perform_goesOn r
  timely _ timely := perform_timely timely r

theorem State.perform_sameJobs (h : r.LeavesJobs) (s : State) : SameJobs s (s.perform r).2 where
  rules := funext fun id => s.perform_rule? (h id)
  jobs := (s.perform_jobs h).1
  lastGeneration := (s.perform_jobs h).2
  clock := s.perform_goesOn r
  timely _ timely := perform_timely timely r

namespace SameJobs

theorem refl (s : State) : SameJobs s s := ⟨rfl, rfl, rfl, .refl _, fun _ h => h⟩

theorem trans (h : SameJobs s s') (h' : SameJobs s' s'') : SameJobs s s'' where
  rules := h'.rules.trans h.rules
  jobs := h'.jobs.trans h.jobs
  lastGeneration := h'.lastGeneration.trans h.lastGeneration
  clock := h.clock.trans h'.clock
  timely running timely := h'.timely running (h.timely running timely)

theorem job? (h : SameJobs s s') (id : RuleId) : s'.board.job? id = s.board.job? id := by
  rw [JobBoard.job?, h.jobs, JobBoard.job?]

theorem inStep (h : SameJobs s s') (before : s.InStep running apart) : s'.InStep running apart where
  timely := h.timely running before.timely
  numbered := before.numbered.of_jobs_eq h.jobs h.lastGeneration
  attends id other := by
    rw [h.rules, h.job?]
    exact before.attends id other

end SameJobs

/-! ## Programs that leave jobs alone -/

section Quiet

variable {α β : Type}

/-- A request that leaves jobs alone can have any answer. -/
theorem Program.follows_quiet_bind (quiet : r.LeavesJobs) {f : r.Answer → Program β}
    {post : β → State → Prop}
    (h : ∀ answer s', SameJobs s s' → (f answer).Follows (.among Elsewhere) s' post) :
    (Program.call r >>= f).Follows (.among Elsewhere) s post :=
  follows_among_bind fun s₁ elsewhere =>
    h _ _ (elsewhere.sameJobs.trans (s₁.perform_sameJobs quiet))

theorem Action.follows_quiet_bind (quiet : r.LeavesJobs) {f : r.Answer → Action β}
    {good : β → State → Prop} {bad : State → Prop}
    (h : ∀ answer s', SameJobs s s' → (f answer).Follows (.among Elsewhere) s' good bad) :
    (Action.call r >>= f).Follows (.among Elsewhere) s good bad :=
  follows_among_bind fun s₁ elsewhere =>
    h _ _ (elsewhere.sameJobs.trans (s₁.perform_sameJobs quiet))

/-- In a program that leaves jobs alone, a request leaves them as they were at first. -/
theorem sameJobs_step (x : State) (quiet : r.LeavesJobs) (before : SameJobs s x) :
    (Protocol.among Elsewhere).Admits x r ∧
      ∀ answer x', (Protocol.among Elsewhere).Leads x r answer x' → SameJobs s x' := by
  refine ⟨trivial, ?_⟩
  rintro _ _ ⟨x₁, elsewhere, -, rfl⟩
  exact before.trans (elsewhere.sameJobs.trans (x₁.perform_sameJobs quiet))

theorem Program.Asks.follows_quiet {p : Program α} (asks : p.Asks Request.LeavesJobs) :
    p.Follows (.among Elsewhere) s fun _ => SameJobs s :=
  asks.follows (SameJobs s) (fun _ x quiet => sameJobs_step x quiet) (.refl s)

theorem Action.Asks.follows_quiet {a : Action α} (asks : a.Asks Request.LeavesJobs) :
    a.Follows (.among Elsewhere) s (fun _ => SameJobs s) (SameJobs s) :=
  asks.follows (SameJobs s) (fun _ x quiet => sameJobs_step x quiet) (.refl s)

end Quiet

/-! ## Scheduling -/

/-- In manual mode a rule can always be scheduled, and then it is in step with its job. -/
theorem schedule_inStep (manual : setup.mode = .manual) (h : s.InStep running (some rule.id))
    (found : s.catalog.rule? rule.id = some rule) (timed : rule.IsTimed) :
    (schedule setup rule).Follows (.among Elsewhere) s (fun _ s' => s'.InStep running none)
      fun _ => False := by
  unfold schedule
  by_cases active : rule.active = true
  · obtain ⟨due, at_due⟩ := Option.isSome_iff_exists.mp (timed active)
    rw [if_neg (by simp [active]), if_neg (by simp [manual]), at_due]
    refine follows_among_call fun s₁ elsewhere => ?_
    have apart := (elsewhere.sameJobs.inStep h).perform
      (.installJob rule.id due (if setup.mode = .background then some due else none))
      fun _ => congrArg some
    refine apart.settle ?_
    rw [State.perform_catalog rfl, elsewhere.sameJobs.rules, found, State.perform,
      JobBoard.job?_install, if_pos rfl]
    exact .active active at_due rfl (Instant.le_refl due)
  · rw [Bool.not_eq_true] at active
    rw [if_pos (by simp [active])]
    refine follows_among_bind fun s₁ elsewhere => (follows_pure _).mpr ?_
    have apart := (elsewhere.sameJobs.inStep h).perform (.removeJob rule.id) fun _ => congrArg some
    refine apart.settle ?_
    rw [State.perform_catalog rfl, elsewhere.sameJobs.rules, found, State.perform,
      JobBoard.job?_remove, if_pos rfl]
    exact .inactive active

/-! ## Runs -/

/-- While a rule is run, its job can be running, and nothing else changes. -/
theorem dispatch_sameJobs (id : RuleId) (generation : Option Nat) :
    (dispatch setup id generation).Follows (.among Elsewhere) s fun _ s' =>
      match generation with
      | none => SameJobs s s'
      | some generation =>
        ∃ s₁, SameJobs s s₁ ∧ SameJobs (s₁.perform (.fireJob id generation)).2 s' := by
  have run : ∀ s₁, (executeLocked setup id).Follows (.among Elsewhere) s₁ fun _ => SameJobs s₁ := by
    intro s₁
    exact (executeLocked_asks (fun _ => Request.leavesJobs_of_ofRun) (fun _ => not_false)
      (fun _ => not_false) id).follows_quiet
  unfold dispatch
  refine Program.follows_quiet_bind (r := .takeSlot) (fun _ => not_false) fun _ s₁ same₁ => ?_
  refine Program.follows_quiet_bind (r := .lock id) (fun _ => not_false) fun _ s₂ same₂ => ?_
  have same := same₁.trans same₂
  cases generation with
  | none => exact (run s₂).mono fun _ s' same' => same.trans same'
  | some generation =>
    refine Program.follows_among_bind fun s₃ elsewhere => ?_
    exact (run _).mono fun _ s' same' => ⟨s₃, same.trans elsewhere.sameJobs, same'⟩

/-! ## The bookkeeping after a run -/

/-- What a pass relies on for the entries whose runs are still to come: that their rules have not
changed since it began, and that they were due then. -/
structure Ahead (began : Instant) (entries : List Entry) (s : State) : Prop where
  distinct : (entries.map Entry.id).Nodup
  rules : ∀ e ∈ entries, s.catalog.rule? e.id = some e.rule
  due : ∀ e ∈ entries, e.isDue began = true
  shown : s.clock.HasShown began

section Pass

variable {began due next : Instant} {e : Entry} {entries rest : List Entry}

theorem Ahead.of_rules (h : Ahead began entries s) (clock : s.clock.GoesOn s'.clock)
    (rules : ∀ e ∈ entries, s'.catalog.rule? e.id = s.catalog.rule? e.id) :
    Ahead began entries s' :=
  { h with
    rules := fun e he => (rules e he).trans (h.rules e he)
    shown := h.shown.goesOn clock }

theorem SameJobs.ahead (h : SameJobs s s') (before : Ahead began entries s) :
    Ahead began entries s' :=
  before.of_rules h.clock fun e _ => congrFun h.rules e.id

theorem Ahead.perform (h : Ahead began entries s) (r : Request)
    (others : ∀ e ∈ entries, ¬ r.Concerns e.id) : Ahead began entries (s.perform r).2 :=
  h.of_rules (s.perform_goesOn r) fun e he => s.perform_rule? (others e he)

theorem Ahead.tail (h : Ahead began (e :: rest) s) :
    Ahead began rest s ∧ ∀ x ∈ rest, e.id ≠ x.id := by
  obtain ⟨not_mem, distinct⟩ := List.nodup_cons.mp h.distinct
  refine ⟨⟨distinct, fun x hx => h.rules x (.tail _ hx), fun x hx => h.due x (.tail _ hx), h.shown⟩,
    fun x hx same => not_mem ?_⟩
  rw [same]
  exact List.mem_map_of_mem hx

/-- When a job is due again can always be said. After a failure this is not before the time at which
it was due. -/
theorem exists_dueAfter? (timely : s.Timely running) (schedule : Schedule) (previous : Instant)
    (result : Except Failure Nat) :
    ∃ next, dueAfter? running schedule previous s.clock.read.1 result = some next ∧
      match result with
      | .ok _ => next = schedule.nextRun s.clock.read.1
      | .error _ => previous ≤ next := by
  cases result with
  | ok rows => exact ⟨_, rfl, rfl⟩
  | error failure =>
    obtain ⟨retry, again⟩ := Option.isSome_iff_exists.mp (timely.retries s.clock.readings)
    refine ⟨Instant.latest previous retry, ?_, Instant.le_latest ..⟩
    exact congrArg (Option.map (Instant.latest previous)) again

/-- The times of a run are written into the row, unless the catalogue is told to refuse this. -/
theorem State.perform_recordRun_rule? (found : s.catalog.rule? id = some rule)
    (last next : Instant) :
    (s.perform (.recordRun id last next)).2.catalog.rule? id =
        some { rule with lastRunAt := some last, nextRunAt := some next } ∨
      s.faults.run ≠ {} ∧
        (s.perform (.recordRun id last next)).2.catalog.rule? id = some rule := by
  obtain ⟨e, stored, rfl⟩ := Catalog.rule?_eq_some.mp found
  by_cases never : s.faults.run = {}
  · left
    simp only [perform, recordRun, never, Fault.trip]
    refine (Catalog.rule?_modify ..).trans ?_
    rw [if_pos rfl, stored]
    rfl
  · simp only [perform, recordRun]
    split
    · exact .inr ⟨never, found⟩
    · left
      refine (Catalog.rule?_modify ..).trans ?_
      rw [if_pos rfl, stored]
      rfl

/-- A job that was running is scheduled again, and the rule is in step with it if the job is not
due before the rule is. -/
theorem State.InStep.finishJob (h : s.InStep running (some id)) (fired : s.board.job? id = some job)
    (state : job.state = .running) (found : s.catalog.rule? id = some rule)
    (active : rule.active = true) (timed : rule.nextRunAt = some due) (onTime : due ≤ next) :
    (s.perform (.finishJob id job.generation next)).2.InStep running none := by
  have apart := h.perform (.finishJob id job.generation next) fun _ => congrArg some
  refine apart.settle ?_
  rw [State.perform_catalog rfl, found]
  simp only [State.perform, JobBoard.finish]
  rw [JobBoard.job?_modify_self fired]
  refine .active active timed ?_ onTime
  simp [state, JobBoard.move, JobState.canBecome, JobState.transitions]

/-- The bookkeeping after the run of an entry always ends, with the rule in step with its job, and
leaves the other entries as they are. -/
theorem complete_inStep (h : s.InStep setup.running (some e.id)) (ahead : Ahead began (e :: rest) s)
    (fired : s.board.job? e.id = some job) (state : job.state = .running)
    (timed : e.rule.nextRunAt = some due) (result : Except Failure Nat) :
    (complete setup e.id (some job.generation) e.rule.schedule due result).Follows
      (.among Elsewhere) s fun next s' =>
        next.isSome = true ∧ s'.InStep setup.running none ∧ Ahead began rest s' := by
  have is_due := ahead.due e List.mem_cons_self
  simp only [Entry.isDue, timed, Option.all_some, Bool.and_eq_true, decide_eq_true_eq] at is_due
  obtain ⟨active, due_began⟩ := is_due
  obtain ⟨-, others⟩ := ahead.tail
  -- The job is finished after the row was written, or after nothing was written.
  have finish : ∀ (x : State) (rule : Rule) (time next : Instant),
      x.InStep setup.running (some e.id) → Ahead began rest x → x.board.job? e.id = some job →
      x.catalog.rule? e.id = some rule → rule.active = true → rule.nextRunAt = some time →
      time ≤ next →
      (Program.call (.finishJob e.id job.generation next) >>= fun _ =>
        pure (some next) : Program (Option Instant)).Follows (.among Elsewhere) x fun next s' =>
          next.isSome = true ∧ s'.InStep setup.running none ∧ Ahead began rest s' := by
    intro x rule time next apart left fired found active timed onTime
    refine Program.follows_among_bind fun x₁ elsewhere => (Program.follows_pure _).mpr ?_
    have same := elsewhere.sameJobs
    exact ⟨rfl, (same.inStep apart).finishJob ((same.job? _).trans fired) state
      (same.rules ▸ found) active timed onTime, (same.ahead left).perform _ others⟩
  unfold complete
  refine Program.follows_among_bind fun s₁ elsewhere => ?_
  have same₁ := elsewhere.sameJobs
  have same₂ := same₁.trans (s₁.perform_sameJobs (r := .now) fun _ => not_false)
  obtain ⟨next, due_next, spec⟩ :=
    exists_dueAfter? (same₁.inStep h).timely e.rule.schedule due result
  change dueAfter? _ _ _ (s₁.perform .now).1 _ = _ at due_next
  rw [due_next]
  have found := ahead.rules e List.mem_cons_self
  cases result with
  | error failure =>
    exact finish _ e.rule due next (same₂.inStep h) (same₂.ahead ahead).tail.1
      ((same₂.job? _).trans fired) (same₂.rules ▸ found) active timed spec
  | ok rows =>
    refine Program.follows_among_bind fun s₃ elsewhere₃ => ?_
    have same₃ := same₂.trans elsewhere₃.sameJobs
    -- The row is written.
    let write : Request := .recordRun e.id (s₁.perform .now).1 next
    have apart : (s₃.perform write).2.InStep setup.running (some e.id) :=
      (same₃.inStep h).perform write fun _ => congrArg some
    have left : Ahead began rest (s₃.perform write).2 :=
      (same₃.ahead ahead).tail.1.perform write others
    have still_fired : (s₃.perform write).2.board.job? e.id = some job := by
      rw [State.perform_ofRows_board rfl]
      exact (same₃.job? _).trans fired
    rcases State.perform_recordRun_rule? (same₃.rules ▸ found) (s₁.perform .now).1 next
      with written | ⟨refused, unwritten⟩
    · exact finish _ _ next next apart left still_fired written active rfl (Instant.le_refl next)
    · -- Nothing was written, but then the clock does not go back.
      have forward : s₁.clock.NeverGoesBack := by
        have forward₃ := (same₃.inStep h).timely.recorded.resolve_left refused
        rwa [elsewhere₃.clock.neverGoesBack_iff, (s₁.perform_goesOn .now).neverGoesBack_iff]
          at forward₃
      have onTime : due ≤ next := by
        rw [spec]
        have began_read := forward.le_read (same₁.ahead ahead).shown
        exact Instant.le_trans due_began
          (Instant.le_trans began_read (e.rule.schedule.le_nextRun _))
      exact finish _ _ due next apart left still_fired unwritten active timed onTime

/-- The runs of a pass, one after the other, each leave their rule in step with its job. -/
theorem passOver_inStep (entries : List Entry) (report : PassReport)
    (h : s.InStep setup.running none) (ahead : Ahead began entries s) :
    (passOver setup began entries report).Follows (.among Elsewhere) s fun _ s' =>
      s'.InStep setup.running none := by
  induction entries generalizing report s with
  | nil => exact (Program.follows_pure _).mpr h
  | cons e rest ih =>
    have is_due := ahead.due e List.mem_cons_self
    simp only [Entry.isDue, Bool.and_eq_true] at is_due
    -- What the pass has read is still in the row.
    have attends := h.attended e.id
    rw [ahead.rules e List.mem_cons_self] at attends
    -- As the rule is active, it has a job.
    cases found : s.board.job? e.id with
    | none =>
      rw [found] at attends
      cases attends with
      | inactive inactive => rw [inactive] at is_due; cases is_due.1
    | some job =>
      rw [found] at attends
      cases attends with
      | active active timed scheduled onTime =>
        unfold passOver
        refine Program.follows_among_bind fun s₁ elsewhere => ?_
        have same₁ := elsewhere.sameJobs
        have generation : (s₁.perform (.jobGeneration e.id)).1 = some job.generation := by
          rw [State.perform, JobBoard.generation?, same₁.job?, found]
          rfl
        rw [generation]
        refine (dispatch_sameJobs e.id (some job.generation)).bind ?_
        rintro result s₃ ⟨s₂, same₂, same₃⟩
        have before := same₁.trans same₂
        -- From now on the rule is apart from its job, which is running.
        have apart := ((before.inStep h).setApart e.id).perform (.fireJob e.id job.generation)
          fun _ => congrArg some
        have left : Ahead began (e :: rest) (s₂.perform (.fireJob e.id job.generation)).2 :=
          (before.ahead ahead).of_rules (.refl _) fun _ _ => rfl
        have fired : (s₂.perform (.fireJob e.id job.generation)).2.board.job? e.id =
            some { job with state := .running } := by
          refine (JobBoard.job?_modify_self ((before.job? _).trans found) _).trans ?_
          simp [scheduled, JobBoard.move, JobState.canBecome, JobState.transitions]
        dsimp only
        rw [timed]
        refine (complete_inStep (same₃.inStep apart) (same₃.ahead left)
          ((same₃.job? _).trans fired) rfl timed result).bind ?_
        rintro next s₄ ⟨ends, inStep, ahead₄⟩
        obtain ⟨time, rfl⟩ := Option.isSome_iff_exists.mp ends
        exact ih _ inStep ahead₄

/-- A pass leaves all rules in step with their jobs, whichever of its runs fail. -/
theorem runPass_inStep (h : s.InStep setup.running none) :
    (runPass setup).Follows (.among Elsewhere) s fun _ s' => s'.InStep setup.running none := by
  unfold runPass
  refine Program.follows_among_bind fun s₁ elsewhere₁ => ?_
  have same₂ := elsewhere₁.sameJobs.trans (s₁.perform_sameJobs (r := .now) fun _ => not_false)
  have shown : (s₁.perform .now).2.clock.HasShown (s₁.perform .now).1 := s₁.clock.hasShown_read
  generalize (s₁.perform .now).1 = began at shown ⊢
  refine Program.follows_among_bind fun s₃ elsewhere₃ => ?_
  have same₃ := same₂.trans elsewhere₃.sameJobs
  have listed : (s₃.perform .listRows).1 = s₃.catalog.list := rfl
  rw [listed]
  dsimp only
  have inStep := same₃.inStep h
  refine passOver_inStep _ _ inStep ⟨nodup_executionOrder_entries _, fun e he => ?_, fun e he => ?_,
    shown.goesOn elsewhere₃.clock⟩
  · have listed := (List.mem_filter.mp (mem_of_mem_executionOrder_entries he)).1
    exact inStep.timely.indexed.rule?_of_mem listed
  · exact (List.mem_filter.mp (mem_of_mem_executionOrder_entries he)).2

end Pass

/-! ## Runs by hand -/

/-- The times of a run are written down with the time at which the rule is due anyway. -/
theorem State.InStep.recordRun (h : s.InStep running none) (id : RuleId) (last : Instant)
    {next : Instant} (same : ∀ rule due, s.catalog.rule? id = some rule →
      rule.nextRunAt = some due → next = due) :
    (s.perform (.recordRun id last next)).2.InStep running none := by
  have apart := (h.setApart id).perform (.recordRun id last next) fun _ => congrArg some
  refine apart.settle ?_
  rw [State.perform_ofRows_board rfl]
  have attends := h.attended id
  cases found : s.catalog.rule? id with
  | none =>
    have missing : (s.perform (.recordRun id last next)).2.catalog.rule? id = none := by
      simp only [State.perform, State.recordRun]
      split
      · exact found
      · refine (Catalog.rule?_modify ..).trans ?_
        rw [if_pos rfl, Option.map_eq_none_iff.mp found]
        rfl
    rw [found] at attends
    rw [missing]
    exact attends
  | some rule =>
    rw [found] at attends
    rcases State.perform_recordRun_rule? found last next with written | ⟨-, unwritten⟩
    · rw [written]
      generalize s.board.job? id = job? at attends ⊢
      cases attends with
      | active active timed scheduled onTime =>
        obtain rfl := same rule _ found timed
        exact .active active rfl scheduled onTime
      | inactive inactive => exact .inactive inactive
    · rw [unwritten]
      exact attends

/-- A manual run writes down the time at which the rule is due anyway, so that its job stays in
step. -/
theorem manualRun_inStep (h : s.InStep running none) (run : ManualRun) :
    (manualRun setup run).Follows (.among Elsewhere) s fun _ s' => s'.InStep running none := by
  have close : ∀ s₁ : State, s₁.InStep running none →
      (Program.call (.closeRun run.sequence)).Follows (.among Elsewhere) s₁ fun _ s' =>
        s'.InStep running none := by
    intro s₁ h₁
    refine Program.follows_among_call fun s₂ elsewhere => ?_
    exact (elsewhere.sameJobs.inStep h₁).perform _ fun _ => False.elim
  unfold manualRun
  refine (dispatch_sameJobs run.rule none).bind fun result s₁ same₁ => ?_
  dsimp only at same₁ ⊢
  split
  · refine Program.follows_quiet_bind (r := .now) (fun _ => not_false) fun now s₂ same₂ => ?_
    refine Program.follows_among_bind fun s₃ elsewhere₃ => ?_
    have row : (s₃.perform (.getRow run.rule)).1 = s₃.catalog.get? run.rule := rfl
    rw [row]
    refine Program.follows_among_bind fun s₄ elsewhere₄ => close _ ?_
    have same₃ := same₁.trans (same₂.trans elsewhere₃.sameJobs)
    refine ((same₃.trans elsewhere₄.sameJobs).inStep h).recordRun _ _ fun rule due found timed => ?_
    -- Rows do not change meanwhile, so the row that was read is the one that is written.
    obtain ⟨e, stored, rfl⟩ := Catalog.rule?_eq_some.mp found
    rw [elsewhere₄.catalog] at stored
    change s₃.catalog.get? run.rule = some e at stored
    rw [stored, Option.bind_some, timed, Option.getD_some]
  · exact close s₁ (same₁.inStep h)

end Cohort
