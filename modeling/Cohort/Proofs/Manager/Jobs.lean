import Cohort.Proofs.Manager.Commits
import Cohort.Proofs.Manager.Mirror
import Cohort.Proofs.Scheduler.Attendance

/-!
# Jobs of all active rules

Rules are created, changed, deleted and run, one operation after the other, in a system whose jobs
are run in passes only. Whether an operation succeeds or fails, in the end just the active rules
have jobs. A change puts the job in place after the row, a deletion takes out the job before the
table and the row, and brings it back if one of these stays.

## Main definitions

* `Operation.EndsAmong` — an operation ends with a state, among other changes
* `Attended` — the states of a system in which runs can be tried again

## Main results

* `createRule_inStep`, `updateRule_inStep`, `deleteRule_inStep` — changes of rules
* `jobs_mirror_rules` — in all states the jobs are those of the active rules
-/

namespace Cohort

open Cohort.Action

variable {setup : Setup} {s s' : State} {id : RuleId} {e current next stored : Entry}
  {patch : RulePatch} {now : Instant}

/-- However it ends, the program leaves all rules in step with their jobs. -/
abbrev Action.EndsInStep {α : Type} (a : Action α) (running : Settings.Running) (s : State) :
    Prop :=
  a.Follows (.among Elsewhere) s (fun _ s' => s'.InStep running none) fun s' =>
    s'.InStep running none

/-- A rule whose row is in place is scheduled, and the program goes on. -/
theorem schedule_bind_inStep (setup : Setup) {running : Settings.Running} {α : Type}
    {rest : Except Failure Unit → Action α} (manual : setup.mode = .manual)
    (h : s.InStep running (some e.id)) (found : s.catalog.rule? e.id = some e.rule)
    (timed : e.rule.IsTimed)
    (ends : ∀ s', s'.InStep running none → (rest (.ok ())).EndsInStep running s') :
    (of (schedule setup e.rule).outcome >>= rest).EndsInStep running s :=
  follows_of_bind.mpr <| (schedule_inStep manual h found timed).outcome (fun _ s₁ h₁ => ends s₁ h₁)
    fun _ _ never => never.elim

/-- At the end the change is told. -/
theorem emit_inStep {running : Settings.Running} {α : Type} (h : s.InStep running none)
    (event : Event) (v : α) :
    (Action.call (.emit event) >>= fun _ => pure v : Action α).EndsInStep running s :=
  follows_quiet_bind (r := .emit event) (fun _ => not_false) fun _ _ same =>
    (follows_pure v).mpr (same.inStep h)

/-! ## Creating rules -/

theorem Request.leavesJobs_of_ofPlanning {excluded : List RuleId} {r : Request}
    (h : r.ofPlanning excluded = true) : r.LeavesJobs := by
  cases r <;> simp_all [ofPlanning, LeavesJobs, Concerns]

/-- A rule whose row was added has no job yet. -/
theorem insertRow_inStep {running : Settings.Running} (h : s.InStep running none) (e : Entry) :
    (check (Program.call (.insertRow e))).Follows (.among Elsewhere) s
      (fun stored s' => s'.InStep running (some stored.id) ∧
        s'.catalog.rule? stored.id = some stored.rule ∧ stored.rule = e.rule)
      fun s' => s'.InStep running none := by
  refine follows_check.mpr (Program.follows_among_call fun s₁ elsewhere => ?_)
  have h₁ := elsewhere.sameJobs.inStep h
  have apart := (h₁.setApart e.id).perform (.insertRow e) fun _ => congrArg some
  have board : (s₁.perform (.insertRow e)).2.board = s₁.board := rfl
  generalize hp : s₁.perform (.insertRow e) = p at apart board
  rcases s₁.catalog.insert_cases e with ⟨failure, unchanged⟩ | ⟨c', inserted, -, -, -, rows, -⟩
  · simp only [State.perform, unchanged] at hp
    subst hp
    exact h₁
  · simp only [State.perform, inserted] at hp
    subst hp
    exact ⟨apart, (Catalog.rule?_of_put rows e.id).trans (if_pos rfl), rfl⟩

theorem commitCreate_inStep (manual : setup.mode = .manual)
    (h : s.InStep setup.running (some stored.id))
    (found : s.catalog.rule? stored.id = some stored.rule) (timed : stored.rule.IsTimed)
    (warnings : List Warning) :
    (commitCreate setup stored warnings).EndsInStep setup.running s := by
  unfold commitCreate
  exact schedule_bind_inStep setup manual h found timed fun s₁ h₁ => emit_inStep h₁ _ _

/-- A new rule that is active is due at once, and so is its job. -/
theorem createRule_inStep (manual : setup.mode = .manual) (h : s.InStep setup.running none)
    (d : RuleDraft) : (createRule setup d).EndsInStep setup.running s := by
  unfold createRule
  dsimp only
  split
  · exact (follows_throw _).mpr h
  refine follows_quiet_bind (r := .listRows) (fun _ => not_false) fun rows s₁ same₁ => ?_
  split
  · exact (follows_throw _).mpr (same₁.inStep h)
  refine follows_quiet_bind (r := .allocateId) (fun _ => not_false) fun a s₂ same₂ => ?_
  have h₂ := (same₁.trans same₂).inStep h
  have planned : (plan setup d.conditions d.composition [a]).Asks Request.LeavesJobs :=
    plan_asks (fun _ => Request.leavesJobs_of_ofPlanning) _ _
  refine follows_bind.mpr (planned.follows_quiet.mono (fun p s₃ same₃ => ?_)
    fun s₃ same₃ => same₃.inStep h₂)
  refine follows_quiet_bind (r := .now) (fun _ => not_false) fun now s₄ same₄ => ?_
  have h₄ := (same₃.trans same₄).inStep h₂
  -- From here on the rule has a row, and until it is scheduled no job.
  refine (insertRow_inStep h₄ _).bind ?_
  rintro stored s₅ ⟨h₅, found, same_rule⟩
  refine commitCreate_inStep manual h₅ found ?_ _
  rw [same_rule]
  intro active
  change d.active = true at active
  change (if d.active then some now else none).isSome = true
  rw [if_pos active]
  rfl

/-! ## Changing rules -/

/-- A change leaves an active rule with a time at which it is due. -/
theorem Amended.isTimed (h : Amended current patch now next) (timed : current.rule.IsTimed) :
    next.rule.IsTimed := by
  cases h with
  | plain applied =>
    obtain ⟨name, -, rfl⟩ := applyPlain_eq applied
    intro active
    change patch.active.getD current.rule.active = true at active
    dsimp only [Entry.touched]
    rw [active, Bool.true_and]
    by_cases was_active : current.rule.active = true
    · rw [was_active, if_neg (by simp)]
      split
      · exact timed was_active
      · rfl
    · rw [if_pos (by simpa using was_active)]
      rfl
  | replanned applied p =>
    intro active
    dsimp only [Entry.touched, Entry.dueAt] at active ⊢
    rw [if_pos active]
    rfl

theorem commitUpdate_inStep (manual : setup.mode = .manual)
    (h : s.InStep setup.running (some stored.id))
    (found : s.catalog.rule? stored.id = some stored.rule) (timed : stored.rule.IsTimed)
    (warnings : List Warning) :
    (commitUpdate setup current stored warnings).EndsInStep setup.running s := by
  unfold commitUpdate
  exact schedule_bind_inStep setup manual h found timed fun s₁ h₁ => emit_inStep h₁ _ _

/-- A row is replaced, and its job is apart, or nothing changes. -/
theorem replaceRow_inStep {running : Settings.Running} (h : s.InStep running none) (next : Entry)
    (version : Nat) : (Program.call (.replaceRow next version)).Follows (.among Elsewhere) s
      fun result s' =>
        match result with
        | .ok stored => s'.InStep running (some stored.id) ∧
            s'.catalog.rule? stored.id = some stored.rule ∧ stored.rule = next.rule
        | .error _ => s'.InStep running none := by
  refine Program.follows_among_call fun s₁ elsewhere => ?_
  have h₁ := elsewhere.sameJobs.inStep h
  rcases replaceRow_cases s₁ next version
    with ⟨failure, answer, refused⟩ | ⟨_, stored, answer, rfl, -, -, -, rows⟩
  · rw [answer]
    exact (State.refused_sameJobs refused (State.perform_ofRows_board rfl s₁)).inStep h₁
  · rw [answer]
    exact ⟨(h₁.setApart next.id).perform _ fun _ => congrArg some,
      (Catalog.rule?_of_put rows next.id).trans (if_pos rfl), rfl⟩

theorem updateOnce_inStep (manual : setup.mode = .manual) (h : s.InStep setup.running none)
    {again : Failure → Action RuleOutcome}
    (tried : ∀ failure s', s'.InStep setup.running none →
      (again failure).EndsInStep setup.running s') (id : RuleId) (patch : RulePatch) :
    (updateOnce setup id patch again).EndsInStep setup.running s := by
  unfold updateOnce
  refine follows_among_bind fun s₁ elsewhere₁ => ?_
  have h₁ := elsewhere₁.sameJobs.inStep h
  cases found : (s₁.perform (.getRow id)).1 with
  | none => exact (follows_throw _).mpr h₁
  | some current =>
    replace found : s₁.catalog.get? id = some current := found
    -- A rule that stays active keeps its time unless it is due at once.
    have current_timed : current.rule.IsTimed := by
      have attends := h₁.attended id
      rw [Catalog.rule?, found] at attends
      exact attends.isTimed
    dsimp only
    refine follows_bind.mpr ((applyPatch_follows current patch (SameJobs s₁) (.refl s₁) ?_).mono ?_
      fun s₂ same => same.inStep h₁)
    · rintro r x quiet same
      refine sameJobs_step x ?_ same
      rcases quiet with rfl | planning
      · exact fun _ => not_false
      · exact Request.leavesJobs_of_ofPlanning planning
    · rintro ⟨next, warnings⟩ s₂ ⟨same, now, amended⟩
      dsimp only at amended ⊢
      refine follows_of_bind.mpr ((replaceRow_inStep (same.inStep h₁) next current.version).mono ?_)
      rintro (failure | stored) s₃ replaced
      · dsimp only at replaced ⊢
        split
        · exact tried _ s₃ replaced
        · exact (follows_throw _).mpr replaced
      · obtain ⟨h₃, found, same_rule⟩ := replaced
        exact commitUpdate_inStep manual h₃ found
          (same_rule ▸ amended.isTimed current_timed) warnings

theorem updateRule_inStep (manual : setup.mode = .manual) (h : s.InStep setup.running none)
    (id : RuleId) (patch : RulePatch) :
    (updateRule setup id patch).EndsInStep setup.running s := by
  have within : ∀ (more : Nat) (s : State), s.InStep setup.running none →
      (updateWithin setup id patch more).EndsInStep setup.running s := by
    intro more
    induction more with
    | zero =>
      exact fun s h => updateOnce_inStep manual h (fun _ _ h => (follows_throw _).mpr h) id patch
    | succ fewer ih => exact fun s h => updateOnce_inStep manual h (fun _ => ih) id patch
  exact within 2 s h

/-! ## Deleting rules -/

/-- The row goes only after the table, and the job has gone before. What fails leaves the row. -/
theorem deleteLocked_inStep {running : Settings.Running}
    (h : s.InStep running (some current.id)) (no_job : s.board.job? current.id = none)
    (found : s.catalog.rule? current.id = some current.rule) :
    (deleteLocked current).Follows (.among Elsewhere) s (fun _ s' => s'.InStep running none)
      fun s' => s'.InStep running (some current.id) ∧
        s'.catalog.rule? current.id = some current.rule := by
  unfold deleteLocked
  refine follows_quiet_bind (r := .dropTable _) (fun _ => not_false) fun result s₁ same₁ => ?_
  split
  · exact (follows_throw _).mpr ⟨same₁.inStep h, same₁.rules ▸ found⟩
  · refine follows_check.mpr (Program.follows_among_call fun s₂ elsewhere => ?_)
    have same₂ := same₁.trans elsewhere.sameJobs
    have apart := (same₂.inStep h).perform (.removeRow current.id) fun _ => congrArg some
    have board := State.perform_ofRows_board (r := .removeRow current.id) rfl s₂
    rcases removeRow_cases s₂ current.id with ⟨failure, answer, refused⟩ | ⟨removed, answer, rows⟩
    · rw [answer]
      exact ⟨apart, by rw [refused, same₂.rules, found]⟩
    · rw [answer]
      refine apart.settle ?_
      rw [Catalog.rule?_of_erase rows, if_pos rfl, board, same₂.job?, no_job]
      exact .missing

theorem deleteRule_inStep (manual : setup.mode = .manual) (h : s.InStep setup.running none)
    (id : RuleId) : (deleteRule setup id).EndsInStep setup.running s := by
  unfold deleteRule
  refine follows_among_bind fun s₁ elsewhere₁ => ?_
  have h₁ := elsewhere₁.sameJobs.inStep h
  have rows : (s₁.perform .listRows).1 = s₁.catalog.list := rfl
  rw [rows]
  cases listed : s₁.catalog.list.find? fun e => e.id = id with
  | none => exact (follows_throw _).mpr h₁
  | some current =>
    have same_id : current.id = id := by simpa using List.find?_some listed
    subst same_id
    have found : s₁.catalog.rule? current.id = some current.rule :=
      h₁.timely.indexed.rule?_of_mem (List.mem_of_find?_eq_some listed)
    have timed : current.rule.IsTimed := by
      have attends := h₁.attended current.id
      rw [found] at attends
      exact attends.isTimed
    dsimp only
    split
    · exact (follows_throw _).mpr h₁
    · refine follows_among_bind fun s₂ elsewhere₂ => ?_
      have same₂ := elsewhere₂.sameJobs
      have apart := ((same₂.inStep h₁).setApart current.id).perform (.removeJob current.id)
        fun _ => congrArg some
      -- The job goes first, and until the row follows the rule is apart.
      have no_job : (s₂.perform (.removeJob current.id)).2.board.job? current.id = none :=
        (JobBoard.job?_remove ..).trans (if_pos rfl)
      have still_found : (s₂.perform (.removeJob current.id)).2.catalog.rule? current.id =
          some current.rule := by
        rw [State.perform_catalog rfl]
        exact (congrFun same₂.rules _).trans found
      refine follows_quiet_bind (r := .lock _) (fun _ => not_false) fun _ s₃ same₃ => ?_
      refine follows_of_bind.mpr ?_
      refine (deleteLocked_inStep (same₃.inStep apart) ((same₃.job? _).trans no_job)
        (same₃.rules ▸ still_found)).outcome (fun removed s₄ h₄ => ?_) fun failure s₄ h₄ => ?_
      · refine follows_quiet_bind (r := .emit _) (fun _ => not_false) fun _ s₅ same₅ => ?_
        refine follows_quiet_bind (r := .unlock _) (fun _ => not_false) fun _ s₆ same₆ => ?_
        exact (follows_pure _).mpr ((same₅.trans same₆).inStep h₄)
      -- The rule gets a job again.
      · refine schedule_bind_inStep setup.whileWaiting manual h₄.1 h₄.2 timed fun s₅ h₅ => ?_
        refine follows_quiet_bind (r := .unlock _) (fun _ => not_false) fun _ s₆ same₆ => ?_
        exact (follows_throw _).mpr (same₆.inStep h₅)

/-! ## Operations -/

theorem manualRuns_inStep {running : Settings.Running} (runs : List ManualRun)
    (h : s.InStep running none) :
    (manualRuns setup runs).Follows (.among Elsewhere) s fun _ s' => s'.InStep running none := by
  induction runs generalizing s with
  | nil => exact (Program.follows_pure _).mpr h
  | cons run rest ih => exact (manualRun_inStep h run).bind fun _ s₁ h₁ => ih h₁

theorem Request.leavesJobs_of_ofTrigger {r : Request} (h : r.ofTrigger = true) :
    r.LeavesJobs := by
  cases r <;> simp_all [ofTrigger, LeavesJobs, Concerns]

/-- The operation ends with a state, whether it succeeds or fails. Before each of its requests, and
at the end, everything can change but the rows and the jobs. -/
inductive Operation.EndsAmong (setup : Setup) : Operation → State → State → Prop
  | create {draft : RuleDraft} {result : Except Failure RuleOutcome} {s s' : State}
      (ends : (createRule setup draft).outcome.EndsAmong Elsewhere s result s') :
      EndsAmong setup (.create draft) s s'
  | update {id : RuleId} {patch : RulePatch} {result : Except Failure RuleOutcome} {s s' : State}
      (ends : (updateRule setup id patch).outcome.EndsAmong Elsewhere s result s') :
      EndsAmong setup (.update id patch) s s'
  | delete {id : RuleId} {result : Except Failure Entry} {s s' : State}
      (ends : (deleteRule setup id).outcome.EndsAmong Elsewhere s result s') :
      EndsAmong setup (.delete id) s s'
  | pass {report : Option PassReport} {s s' : State}
      (ends : (runPass setup).EndsAmong Elsewhere s report s') : EndsAmong setup .pass s s'
  | runByHand {id : RuleId} {result : Except Failure JobKey} {s s₁ s' : State}
      (asked : (trigger setup id).outcome.EndsAmong Elsewhere s result s₁)
      (ran : (manualRuns setup s₁.board.manual).EndsAmong Elsewhere s₁ () s') :
      EndsAmong setup (.runByHand id) s s'

/-- An operation that is applied alone is one for which nothing else changes. -/
theorem Operation.endsAmong_apply (operation : Operation) (s : State) :
    operation.EndsAmong setup s (operation.apply setup s) := by
  cases operation with
  | create draft => exact .create (Program.endsAmong_run .refl _ s)
  | update id patch => exact .update (Program.endsAmong_run .refl _ s)
  | delete id => exact .delete (Program.endsAmong_run .refl _ s)
  | pass => exact .pass (Program.endsAmong_run .refl _ s)
  | runByHand id =>
    refine .runByHand (Program.endsAmong_run .refl _ s) ?_
    rw [apply, State.runByHand, ← run_manualRuns]
    exact Program.endsAmong_run .refl _ _

/-- An operation leaves all rules in step with their jobs. -/
theorem Operation.EndsAmong.inStep {operation : Operation} (ends : operation.EndsAmong setup s s')
    (manual : setup.mode = .manual) (h : s.InStep setup.running none) :
    s'.InStep setup.running none := by
  have program : ∀ {α : Type} {p : Program α} {a : α} {s s' : State},
      p.Follows (.among Elsewhere) s (fun _ s' => s'.InStep setup.running none) →
      p.EndsAmong Elsewhere s a s' → s'.InStep setup.running none := by
    intro α p a s s' follows ends
    obtain ⟨s₁, h₁, elsewhere⟩ := follows.of_endsAmong ends
    exact elsewhere.sameJobs.inStep h₁
  have action : ∀ {α : Type} {a : Action α} {result : Except Failure α} {s s' : State},
      a.EndsInStep setup.running s → a.outcome.EndsAmong Elsewhere s result s' →
      s'.InStep setup.running none :=
    fun follows ends => program (follows.outcome (fun _ _ h => h) fun _ _ h => h) ends
  cases ends with
  | create ends => exact action (createRule_inStep manual h _) ends
  | update ends => exact action (updateRule_inStep manual h _ _) ends
  | delete ends => exact action (deleteRule_inStep manual h _) ends
  | pass ends => exact program (runPass_inStep h) ends
  | runByHand asked ran =>
    rename_i id _ s₁
    have quiet : (trigger setup id).Asks Request.LeavesJobs :=
      trigger_asks (fun _ => Request.leavesJobs_of_ofTrigger) id
    have h₁ := action (quiet.follows_quiet.mono (fun _ _ same => same.inStep h)
      fun _ same => same.inStep h) asked
    exact program (manualRuns_inStep _ h₁) ran

/-! ## All states -/

/-- The states of a system in which a run that failed can be tried again, whenever this is. It
starts without rules. Operations are applied one after the other, each where there is something that
carries out jobs or where there is not, and everything but rows and jobs can change at any time. -/
inductive Attended (setup : Setup) : State → Prop
  | start (clock : Clock) (engine : Engine)
      (retries : ∀ i, (setup.running.retryAt? (clock.reading i)).isSome = true) :
      Attended setup (setup.start clock engine)
  | apply {s s' : State} (hasRuntime : Bool) (operation : Operation) (h : Attended setup s)
      (ends : operation.EndsAmong { setup with hasRuntime } s s') : Attended setup s'
  | meanwhile {s s' : State} (h : Attended setup s) (elsewhere : Elsewhere s s') :
      Attended setup s'

theorem Attended.inStep (manual : setup.mode = .manual) (h : Attended setup s) :
    s.InStep setup.running none := by
  induction h with
  | start clock engine retries =>
    exact ⟨⟨Catalog.indexed_empty, retries, .inl rfl⟩, JobBoard.numbered_of_jobs_eq_nil rfl,
      fun _ _ => .missing⟩
  | @apply _ s' hasRuntime operation _ ends ih => exact ends.inStep manual ih
  | meanwhile _ elsewhere ih => exact elsewhere.sameJobs.inStep ih

/-- Any operations can be applied one after the other. -/
theorem Attended.applyAll (h : Attended setup s) (operations : List Operation) :
    Attended setup (operations.foldl (Operation.apply setup) s) :=
  List.foldlRecOn (motive := Attended setup) _ _ h fun s hs operation _ =>
    .apply setup.hasRuntime operation hs (operation.endsAmong_apply s)

/-- Where jobs are run in passes only, in every state just the active rules have jobs, each has one,
and all of them are scheduled. No two have the same generation, no generation is later than the
last one that was given out, and no job is due before the row says. -/
theorem jobs_mirror_rules {setup : Setup} {s : State} (manual : setup.mode = .manual)
    (h : Attended setup s) :
    (∀ id, (s.board.job? id).isSome = true ↔
      ∃ e ∈ s.catalog.list, e.id = id ∧ e.rule.active = true) ∧
    (s.board.jobs.map Prod.fst).Nodup ∧
    (∀ id job, s.board.job? id = some job →
      job.state = .scheduled ∧ job.generation ≤ s.board.lastGeneration ∧
      (∀ e ∈ s.catalog.list, e.id = id → ∀ t, e.rule.nextRunAt = some t → t ≤ job.nextRunAt)) ∧
    ∀ id id' job job', s.board.job? id = some job → s.board.job? id' = some job' →
      job.generation = job'.generation → id = id' := by
  have inStep := h.inStep manual
  have indexed := inStep.timely.indexed
  refine ⟨fun id => ?_, inStep.numbered.keyed, fun id job found => ⟨?_, ?_, ?_⟩,
    inStep.numbered.distinct⟩
  · rw [(inStep.attended id).isSome_iff]
    simp only [indexed.rule?_eq_some]
    constructor
    · rintro ⟨_, ⟨e, he, same, rfl⟩, active⟩
      exact ⟨e, he, same, active⟩
    · rintro ⟨e, he, same, active⟩
      exact ⟨e.rule, ⟨e, he, same, rfl⟩, active⟩
  · exact (found ▸ inStep.attended id).job_waits.1
  · exact inStep.numbered.given id job found
  · rintro e he rfl t timed
    exact (found ▸ inStep.attended e.id).job_waits.2 e.rule t (indexed.rule?_of_mem he) timed

/-- A rule was created that is active, and one that is not. -/
private def oneActive : State :=
  let upi := Condition.of "transaction_type" "=" (.text "UPI")
  let card := Condition.of "transaction_type" "=" (.text "CARD")
  [.create { name := "upi", conditions := [upi] },
    .create { name := "card", conditions := [card], active := false }].foldl (Operation.apply {})
      (({} : Setup).start (.still ⟨0, 0⟩) {})

/-- From then on queries crash, and the next row that is to be taken out stays. -/
private def failingThen : State :=
  { oneActive with
    engine := { oneActive.engine with crashQueries := true }
    faults := { oneActive.faults with remove := { times := 1 } } }

/-- The first rule was not deleted, the second one was made active, and no run succeeded. -/
private def allFailed : State :=
  [.delete (RuleId.ofNat 1), .update (RuleId.ofNat 2) { active := some true }, .pass,
    .runByHand (RuleId.ofNat 1)].foldl (Operation.apply {}) failingThen

theorem jobs_mirror_rules_failed : Attended {} allFailed ∧
    allFailed.board.jobs.map (fun p => (p.1, p.2.generation)) =
      [(RuleId.ofNat 1, 2), (RuleId.ofNat 2, 3)] ∧
    allFailed.catalog.list.all (fun e => e.segment.lastRefreshedAt.isNone) = true ∧
    ∀ e ∈ allFailed.catalog.list, (allFailed.board.job? e.id).isSome = true := by
  have retries : (({} : Settings.Running).retryAt? ⟨0, 0⟩).isSome = true := by decide +kernel
  have empty : Attended {} (({} : Setup).start (.still ⟨0, 0⟩) {}) := .start _ _ fun _ => retries
  have first : Attended {} oneActive := empty.applyAll _
  have failing : Attended {} failingThen := .meanwhile first ⟨rfl, rfl, .refl _, .inl rfl⟩
  have attended : Attended {} allFailed := failing.applyAll _
  have active : allFailed.catalog.list.all (fun e => e.rule.active) = true := by decide +kernel
  refine ⟨attended, by decide +kernel, by decide +kernel, fun e he => ?_⟩
  exact ((jobs_mirror_rules rfl attended).1 e.id).mpr
    ⟨e, he, rfl, List.all_eq_true.mp active e he⟩

end Cohort
