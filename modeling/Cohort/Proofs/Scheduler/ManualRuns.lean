import Cohort.Proofs.Scheduler.Demand
import Cohort.Proofs.Scheduler.RunKeys

/-!
# Manual runs and the schedule

A run that is asked for by hand takes the same way as any other: it holds a slot and a lock, it
refreshes what it depends on, and its times are written down. Where nothing else is done meanwhile,
the schedule is as before. This module says what such a run leaves behind, whether it succeeds or
fails: all recurring jobs stay, the rule keeps the time at which it is due, and of the other rows
only those have changed that were in need of a refresh.

## Main definitions

* `JobBoard.unmarked` — the board without the marks of runs that are taken up
* `NothingElse` — what can change while nothing else is done
* `Asked` — a run was asked for
* `RefreshedFor` — a run of a rule refreshes another one on demand
* `RunByHand` — what a run that is not one of a job leaves behind

## Main results

* `dispatch_runByHand`, `manualRun_runByHand` — what the run leaves behind, and that it leaves the
  recurring jobs alone
* `trigger_leaves_schedule` — from when it was asked for until it is done, a manual run does not
  disturb the schedule, and its key is a new one
-/

namespace Cohort

variable {setup : Setup} {s s' s'' s₁ x x' : State} {e e' : Entry} {id a : RuleId} {r : Request}
  {key : JobKey} {run : ManualRun} {result : Except Failure Nat}

/-! ## The board while nothing else is done -/

namespace JobBoard

variable {b b' : JobBoard}

/-- The board without the marks of the runs that are taken up. -/
def unmarked (b : JobBoard) : JobBoard :=
  { b with manual := b.manual.map fun run => { run with started := false } }

@[simp] theorem jobs_unmarked (b : JobBoard) : b.unmarked.jobs = b.jobs := rfl

@[simp] theorem lastSequence_unmarked (b : JobBoard) :
    b.unmarked.lastSequence = b.lastSequence := rfl

theorem lastSequence_eq (same : b'.unmarked = b.unmarked) :
    b'.lastSequence = b.lastSequence := by
  rw [← lastSequence_unmarked, same, lastSequence_unmarked]

theorem unmarked_start (b : JobBoard) (sequence : Nat) :
    (b.start sequence).unmarked = b.unmarked := by
  have same : ∀ run : ManualRun,
      { (if run.sequence = sequence then { run with started := true } else run) with
        started := false } = { run with started := false } := by
    intro run
    split <;> rfl
  simp only [unmarked, start, List.map_map, Function.comp_def, same]

theorem unmarked_close (b : JobBoard) (sequence : Nat) :
    (b.close sequence).unmarked = b.unmarked.close sequence := by
  simp only [unmarked, close, List.filter_map, Function.comp_def]

theorem unmarked_enqueue (b : JobBoard) (rule : RuleId) (schedule : Schedule) :
    (b.enqueue rule schedule).2.unmarked = (b.unmarked.enqueue rule schedule).2 := by
  simp only [unmarked, enqueue, List.map_append, List.map_cons, List.map_nil]

theorem addsNoRun_of_unmarked (same : b'.unmarked = b.unmarked) : b.AddsNoRun b' where
  given := lastSequence_eq same
  runs run' there := by
    have unmarked_there : { run' with started := false } ∈ b'.unmarked.manual :=
      List.mem_map_of_mem there
    rw [same] at unmarked_there
    obtain ⟨run, listed, alike⟩ := List.mem_map.mp unmarked_there
    injection alike with _ number
    exact ⟨run, listed, number⟩

theorem RunsNumbered.unmarked (numbered : b.RunsNumbered) : b.unmarked.RunsNumbered := by
  intro run' there
  obtain ⟨run, listed, rfl⟩ := List.mem_map.mp there
  exact numbered run listed

/-- The run that is done was the last one that was asked for. -/
theorem RunsNumbered.close_enqueued (numbered : b.RunsNumbered) (rule : RuleId)
    (schedule : Schedule) :
    (b.enqueue rule schedule).2.close (b.lastSequence + 1) =
      { b with lastSequence := b.lastSequence + 1 } := by
  have others : b.manual.filter (fun run => run.sequence ≠ b.lastSequence + 1) = b.manual := by
    refine List.filter_eq_self.mpr fun run listed => ?_
    have given := numbered run listed
    exact decide_eq_true (by omega)
  rw [JobBoard.enqueue, JobBoard.close, List.filter_append, others]
  simp

end JobBoard

/-- What can change while nothing else is done. Failures begin and end, and runs are marked as taken
up, but rows, tables, transactions, events, jobs and the clock are left as they are. -/
structure NothingElse (s s' : State) : Prop extends LeftAsIs s s' where
  board : s'.board.unmarked = s.board.unmarked

namespace NothingElse

theorem refl (s : State) : NothingElse s s := ⟨.refl s, rfl⟩

/-- A run that waits is taken up. -/
theorem start (s : State) (sequence : Nat) :
    NothingElse s { s with board := s.board.start sequence } where
  toLeftAsIs := { toStill := ⟨⟨rfl, rfl, rfl⟩, rfl⟩, clock := rfl, recorded := fun h => h }
  board := JobBoard.unmarked_start ..

theorem leadsTo (h : NothingElse s s') : s.LeadsTo s' :=
  .meanwhile .start h.catalog (JobBoard.addsNoRun_of_unmarked h.board)

end NothingElse

/-- The request changes nothing on the job board. -/
def Request.leavesBoard : Request → Bool
  | .installJob .. | .removeJob _ | .clearJobs | .fireJob .. | .finishJob .. | .armJob .. |
    .dropJob .. | .enqueueRun .. | .closeRun _ => false
  | _ => true

theorem Request.leavesBoard_of_ofRun (h : r.ofRun = true) : r.leavesBoard = true := by
  cases r <;> simp_all [ofRun, ofReading, leavesBoard]

theorem State.perform_board (h : r.leavesBoard = true) (s : State) :
    (s.perform r).2.board = s.board := by
  by_cases rows : r.ofRows = true
  · exact perform_ofRows_board rows s
  · cases r <;> simp [Request.ofRows, Request.leavesBoard] at rows h <;> rfl

/-- No row and no job has changed, and nothing was told. -/
structure Idles (s s' : State) : Prop where
  catalog : s'.catalog = s.catalog
  log : s'.log = s.log
  board : s'.board.unmarked = s.board.unmarked
  clock : s.clock.GoesOn s'.clock

theorem Idles.trans (h : Idles s s') (h' : Idles s' s'') : Idles s s'' :=
  ⟨h'.catalog.trans h.catalog, h'.log.trans h.log, h'.board.trans h.board, h.clock.trans h'.clock⟩

theorem NothingElse.idles (h : NothingElse s s') : Idles s s' :=
  ⟨h.catalog, h.log, h.board, h.goesOn⟩

theorem State.perform_idles (still : r.isStill = true) (kept : r.leavesBoard = true) (s : State) :
    Idles s (s.perform r).2 where
  catalog := (s.perform_still still).catalog
  log := (s.perform_still still).log
  board := congrArg JobBoard.unmarked (s.perform_board kept)
  clock := s.perform_goesOn r

/-! ## Asking for a run -/

/-- A run of the rule was asked for, and nothing else was done. -/
structure Asked (id : RuleId) (e : Entry) (s : State) (key : JobKey) (s' : State) : Prop where
  found : s.catalog.get? id = some e
  key : key = .manual id (s.board.lastSequence + 1)
  board : s'.board.unmarked = (s.board.unmarked.enqueue id e.rule.schedule).2
  catalog : s'.catalog = s.catalog
  log : s'.log = s.log ++ [{ kind := .runTriggered, rule := id }]
  clock : s'.clock = s.clock

theorem trigger_asked (setup : Setup) (id : RuleId) (s : State) :
    (trigger setup id).outcome.Follows (.among NothingElse) s fun result s' =>
      ∀ key, result = .ok key → ∃ e, Asked id e s key s' := by
  unfold trigger
  apply Action.outcome_follows_among_bind
  intro s₁ alone₁
  have row : (s₁.perform (.getRow id)).1 = s.catalog.get? id := by
    rw [← alone₁.catalog]
    rfl
  rw [row]
  cases found : s.catalog.get? id with
  | none => exact (Program.follows_pure _).mpr nofun
  | some e =>
    dsimp only
    split
    · exact (Program.follows_pure _).mpr nofun
    apply Action.outcome_follows_among_bind
    intro s₂ alone₂
    apply Action.outcome_follows_among_bind
    intro s₃ alone₃
    apply (Program.follows_pure _).mpr
    intro key returned
    obtain rfl := Except.ok.inj returned
    have before : s₂.board.unmarked = s.board.unmarked := alone₂.board.trans alone₁.board
    refine ⟨e, found, ?_, ?_, ?_, ?_, ?_⟩
    · rw [← JobBoard.lastSequence_eq before]
      rfl
    · refine alone₃.board.trans ?_
      rw [← before, ← JobBoard.unmarked_enqueue]
      rfl
    · exact alone₃.catalog.trans (alone₂.catalog.trans alone₁.catalog)
    · exact congrArg (· ++ _) (alone₃.log.trans (alone₂.log.trans alone₁.log))
    · exact alone₃.clock.trans (alone₂.clock.trans alone₁.clock)

theorem Asked.then_alone (h : Asked id e s key x) (alone : NothingElse x x') :
    Asked id e s key x' where
  found := h.found
  key := h.key
  board := alone.board.trans h.board
  catalog := alone.catalog.trans h.catalog
  log := alone.log.trans h.log
  clock := alone.clock.trans h.clock

/-- The run that waits under the key is the one that was asked for. -/
theorem Asked.run_eq (h : Asked id e s key s') (numbered : s.board.RunsNumbered)
    (listed : run ∈ s'.board.manual) (named : key = .manual run.rule run.sequence) :
    run.rule = id ∧ run.sequence = s.board.lastSequence + 1 ∧ run.schedule = e.rule.schedule := by
  obtain ⟨rfl, number⟩ := JobKey.manual.inj (h.key.symm.trans named)
  have waiting : { run with started := false } ∈ s'.board.unmarked.manual :=
    List.mem_map_of_mem listed
  rw [h.board] at waiting
  have asked := numbered.unmarked.eq_of_enqueued waiting number.symm
  exact ⟨rfl, number.symm, congrArg ManualRun.schedule asked⟩

/-! ## A run by itself -/

/-- A run of the rule refreshes another one on demand: the rule depends on it, and at some time that
the clock has shown its row was in need, as it stood before. -/
structure RefreshedFor (setup : Setup) (id a : RuleId) (s s' : State) : Prop where
  onDemand : setup.running.refreshStale = true
  depends : Relation.TransGen (DependsOn s.catalog.list) id a
  needed : ∃ e t, s.catalog.get? a = some e ∧ s.clock.ShowsUntil s'.clock t ∧
    e.needsRefresh t = true

/-- A run of the rule has ended with this result. If it has succeeded, this can be written down with
the time at which the rule is due anyway. All other rows are as they were, but for what refreshes
leave behind in those that were refreshed for the run. -/
structure RunByHand (setup : Setup) (id : RuleId) (result : Except Failure Nat) (s s' : State) :
    Prop where
  log : ∃ inner, s'.log = s.log ++
    ({ kind := .runStarted, rule := id } :: inner ++ [Event.ofRun id result])
  own : ∃ e e', s.catalog.get? id = some e ∧ s'.catalog.get? id = some e' ∧
    (e'.unrefreshed = e.unrefreshed ∨ ∃ rows t, result = .ok rows ∧
      s.clock.ShowsUntil s'.clock t ∧ e'.unrefreshed =
        (e.ran t (e.rule.nextRunAt.getD (e.rule.schedule.nextRun t))).unrefreshed)
  others : ∀ a, a ≠ id →
    (s'.catalog.get? a).map Entry.unrefreshed = (s.catalog.get? a).map Entry.unrefreshed
  refreshed : ∀ a, a ≠ id → s'.catalog.get? a ≠ s.catalog.get? a → RefreshedFor setup id a s s'

theorem dispatch_asks_leavesBoard (id : RuleId) :
    (dispatch setup id none).Asks fun r => r.leavesBoard = true := by
  unfold dispatch
  refine Program.asks_bind (Program.asks_call rfl) fun _ => ?_
  refine Program.asks_bind (Program.asks_call rfl) fun _ => ?_
  exact executeLocked_asks (fun _ => Request.leavesBoard_of_ofRun) rfl rfl id

theorem dispatch_unmarked (id : RuleId) (s : State) :
    (dispatch setup id none).Follows (.among NothingElse) s fun _ s' =>
      s'.board.unmarked = s.board.unmarked := by
  apply (dispatch_asks_leavesBoard id).follows_among fun s' =>
    s'.board.unmarked = s.board.unmarked
  · intro r s' s₁ kept before alone
    rw [State.perform_board kept, alone.board, before]
  · rfl

/-- A run tells that it starts and how it ends, and all that it touches it tells of. -/
theorem dispatch_conducts (setup : Setup) (indexed : s.catalog.Indexed) (id : RuleId) :
    (dispatch setup id none).Follows (.among (Disturbs true)) s fun result s' => ∃ inner,
      Conducts (Reached s.catalog [] [] id) s
        ({ kind := .runStarted, rule := id } :: inner ++ [Event.ofRun id result]) s' := by
  unfold dispatch
  refine Program.follows_still_bind (r := .takeSlot) rfl (.refl s) fun _ x₁ still₁ => ?_
  refine Program.follows_still_bind (r := .lock id) rfl still₁ fun _ x₂ still₂ => ?_
  have course := execute_course setup true (still₂.catalog ▸ indexed) id
  refine course.bind ?_
  rintro result x₃ ⟨refreshed, inner, computed, course⟩
  have conducts := course.conducts List.not_mem_nil List.not_mem_nil
  have same : (result.map (·, refreshed)).map (·.1) = result := by cases result <;> rfl
  rw [same, still₂.catalog] at conducts
  replace conducts := conducts.after_still still₂
  refine Program.follows_still_bind (r := .unlock id) rfl (.refl x₃) fun _ x₄ still₄ => ?_
  refine Program.follows_still_bind (r := .freeSlot) rfl still₄ fun _ x₅ still₅ => ?_
  refine Program.follows_still_bind (r := .join) rfl still₅ fun _ x₆ still₆ => ?_
  exact (Program.follows_pure _).mpr ⟨inner, conducts.then_still still₆⟩

/-- A run that is not one of a job leaves the jobs alone, and no times are written down. -/
theorem dispatch_runByHand (indexed : s.catalog.Indexed) (found : s.catalog.get? id = some e) :
    (dispatch setup id none).Follows (.among NothingElse) s fun result s' =>
      RunByHand setup id result s s' ∧ s.catalog.SameButRefreshed s'.catalog ∧
        s'.board.unmarked = s.board.unmarked ∧ s.clock.GoesOn s'.clock := by
  have stands : Stands s.catalog s := ⟨indexed, .refl _⟩
  have tells := Program.Follows.all fun a =>
    (dispatch_tells setup id a none indexed stands (.refl s.clock)).among_fewer
      fun _ _ (alone : NothingElse _ _) => alone.toLeftAsIs
  have conducts := (dispatch_conducts setup indexed id).among_fewer
    fun _ _ (alone : NothingElse _ _) => alone.disturbs
  refine ((conducts.and tells).and (dispatch_unmarked id s)).mono ?_
  rintro result s' ⟨⟨⟨inner, conducts⟩, tells⟩, board⟩
  -- What is said of each rule is said of the same events.
  have calls : ∀ a, Tells setup s.catalog s.clock id a s
      ({ kind := .runStarted, rule := id } :: inner ++ [Event.ofRun id result]) result s' := by
    intro a
    obtain ⟨told, tells⟩ := tells a
    obtain rfl := List.append_cancel_left (tells.calls.log.symm.trans conducts.log)
    exact tells
  have same := conducts.keeps.rows
  refine ⟨⟨⟨inner, conducts.log⟩, ?_, fun a _ => same a, ?_⟩, same, board, (calls id).calls.clock⟩
  · have own := same id
    rw [found, Option.map_some] at own
    obtain ⟨e', found', alike⟩ := Option.map_eq_some_iff.mp own
    exact ⟨e, e', found, found', .inl alike⟩
  · intro a other changed
    have started := not_imp_comm.mp (calls a).calls.idle changed
    obtain ⟨onDemand, needed⟩ := ((calls a).calls.demanded started).resolve_left (Ne.symm other)
    have reached := Relation.reflTransGen_iff_eq_or_transGen.mp ((calls a).reached started)
    exact ⟨onDemand, reached.resolve_left other, needed⟩

theorem RefreshedFor.extend (h : RefreshedFor setup id a s x) (on : x.clock.GoesOn x'.clock) :
    RefreshedFor setup id a s x' := by
  obtain ⟨e, t, found, shown, needs⟩ := h.needed
  exact ⟨h.onDemand, h.depends, e, t, found, shown.extend on, needs⟩

/-- Neither the rows nor the clock had changed before the run. -/
theorem RefreshedFor.after_same (h : RefreshedFor setup id a s₁ s')
    (catalog : s₁.catalog = s.catalog) (clock : s₁.clock = s.clock) :
    RefreshedFor setup id a s s' where
  onDemand := h.onDemand
  depends := catalog ▸ h.depends
  needed := by
    rw [← catalog, ← clock]
    exact h.needed

/-- Nothing happens to the rows after the run. -/
theorem RunByHand.then_same (h : RunByHand setup id result s x) (catalog : x'.catalog = x.catalog)
    (log : x'.log = x.log) (on : x.clock.GoesOn x'.clock) : RunByHand setup id result s x' where
  log := log ▸ h.log
  own := by
    rw [catalog]
    obtain ⟨e, e', found, found', alike | ⟨rows, t, success, shown, alike⟩⟩ := h.own
    · exact ⟨e, e', found, found', .inl alike⟩
    · exact ⟨e, e', found, found', .inr ⟨rows, t, success, shown.extend on, alike⟩⟩
  others := catalog ▸ h.others
  refreshed a other changed := by
    rw [catalog] at changed
    exact (h.refreshed a other changed).extend on

/-! ## A manual run from start to end -/

/-- The times of a run are written into the row of the rule, or the catalogue refuses this. -/
theorem State.perform_recordRun_rows (found : s.catalog.get? id = some e) (last next : Instant) :
    (s.perform (.recordRun id last next)).2.catalog = s.catalog ∨
      (s.perform (.recordRun id last next)).2.catalog.rows =
        Assoc.put id (e.ran last next) s.catalog.rows := by
  have written : s.catalog.recordRun id last next = (.ok (),
      { s.catalog with rows := Assoc.put id (e.ran last next) s.catalog.rows }) := by
    simp only [Catalog.recordRun, Catalog.modify, found]
  rw [State.perform, State.recordRun, written]
  split
  · exact .inl rfl
  · exact .inr rfl

theorem Catalog.rule?_eq_of_unrefreshed {c c' : Catalog}
    (alike : (c'.get? a).map Entry.unrefreshed = (c.get? a).map Entry.unrefreshed) :
    c'.rule? a = c.rule? a := by
  have same := congrArg (Option.map Entry.rule) alike
  simp only [Option.map_map, Function.comp_def, Entry.rule_unrefreshed] at same
  exact same

/-- The times of a run that has succeeded are written down, or the catalogue refuses this. -/
theorem RunByHand.recordRun {rows : Nat} {t : Instant} (h : RunByHand setup id (.ok rows) s x)
    (same : s.catalog.SameButRefreshed x.catalog) (found : s.catalog.get? id = some e)
    (shown : s.clock.ShowsUntil x.clock t) :
    RunByHand setup id (.ok rows) s (x.perform
      (.recordRun id t (e.rule.nextRunAt.getD (e.rule.schedule.nextRun t)))).2 := by
  generalize due : e.rule.nextRunAt.getD (e.rule.schedule.nextRun t) = next
  obtain ⟨catalog, faults, kept⟩ := x.perform_ofRows (r := .recordRun id t next) rfl
  have own := same id
  rw [found, Option.map_some] at own
  obtain ⟨current, stored, alike⟩ := Option.map_eq_some_iff.mp own
  rcases x.perform_recordRun_rows stored t next with refused | written
  · exact h.then_same refused (by rw [kept]) (x.perform_goesOn _)
  have row : ∀ a, (x.perform (.recordRun id t next)).2.catalog.get? a =
      if id = a then some (current.ran t next) else x.catalog.get? a :=
    Catalog.get?_of_put_at written
  refine ⟨?_, ?_, fun a other => ?_, fun a other changed => ?_⟩
  · rw [kept]
    exact h.log
  · refine ⟨e, current.ran t next, found, (row id).trans (if_pos rfl), .inr ⟨rows, t, rfl, ?_, ?_⟩⟩
    · exact shown.extend (x.perform_goesOn _)
    · rw [due]
      exact Entry.unrefreshed_ran alike t next
  · rw [row, if_neg (Ne.symm other)]
    exact h.others a other
  · rw [row, if_neg (Ne.symm other)] at changed
    exact (h.refreshed a other changed).extend (x.perform_goesOn _)

/-- A manual run leaves the jobs alone. Its own entry on the board is gone when it is done. -/
theorem manualRun_runByHand (indexed : s.catalog.Indexed)
    (found : s.catalog.get? run.rule = some e) (schedule : run.schedule = e.rule.schedule) :
    (manualRun setup run).Follows (.among NothingElse) s fun _ s' =>
      (∃ result, RunByHand setup run.rule result s s') ∧
        s'.board.unmarked = s.board.unmarked.close run.sequence := by
  have close : ∀ result x, RunByHand setup run.rule result s x →
      x.board.unmarked = s.board.unmarked →
      (Program.call (.closeRun run.sequence)).Follows (.among NothingElse) x fun _ s' =>
        (∃ result, RunByHand setup run.rule result s s') ∧
          s'.board.unmarked = s.board.unmarked.close run.sequence := by
    intro result x h board
    refine Program.follows_among_call fun x₁ alone => ⟨⟨result, ?_⟩, ?_⟩
    · exact h.then_same alone.catalog alone.log alone.goesOn
    · change (x₁.board.close run.sequence).unmarked = _
      rw [JobBoard.unmarked_close, alone.board, board]
  unfold manualRun
  refine (dispatch_runByHand indexed found).bind ?_
  rintro result x₁ ⟨h, same, board, on⟩
  dsimp only
  cases result with
  | error failure => exact close _ x₁ h board
  | ok rows =>
    refine Program.follows_among_bind fun x₂ alone₂ => ?_
    have idles₂ := alone₂.idles.trans (x₂.perform_idles (r := .now) rfl rfl)
    have read_now : x₂.clock.ShowsUntil (x₂.perform .now).2.clock (x₂.perform .now).1 :=
      ⟨x₂.clock.readings, Nat.le_refl _, Nat.lt_succ_self _, rfl⟩
    have shown := (on.trans alone₂.goesOn).showsUntil read_now
    generalize (x₂.perform .now).1 = t at read_now shown ⊢
    generalize (x₂.perform .now).2 = x₃ at read_now idles₂ shown ⊢
    refine Program.follows_among_bind fun x₄ alone₄ => ?_
    have idles₄ := idles₂.trans alone₄.idles
    -- The row that is read has the times that it had before the run.
    have row : (x₄.perform (.getRow run.rule)).1.bind (fun e => e.rule.nextRunAt) =
        e.rule.nextRunAt := by
      have own := same run.rule
      rw [found, Option.map_some, ← idles₄.catalog] at own
      obtain ⟨current, stored, alike⟩ := Option.map_eq_some_iff.mp own
      change (x₄.catalog.get? run.rule).bind _ = _
      rw [stored, Option.bind_some, Entry.rule_eq_of_unrefreshed alike]
    rw [row, schedule]
    refine Program.follows_among_bind fun x₅ alone₅ => ?_
    have read := x₄.perform_idles (r := .getRow run.rule) rfl rfl
    have idles₅ := idles₄.trans (read.trans alone₅.idles)
    have later := alone₄.goesOn.trans (read.clock.trans alone₅.goesOn)
    apply close (.ok rows)
    · exact (h.then_same idles₅.catalog idles₅.log idles₅.clock).recordRun (idles₅.catalog ▸ same)
        found (shown.extend later)
    · rw [State.perform_board rfl, idles₅.board, board]

/-- A run is asked for by hand and carried out, and nothing else is done meanwhile, but anything can
fail. Then all recurring jobs are as before. The rule is due when it was due if it was due at all,
and a time of the run is written down only if the run has succeeded. Of all other rules no time has
changed, and of their rows only what refreshes leave behind, where the rule depends on them and they
were in need of a refresh. The key of the run is none that was returned before. -/
theorem trigger_leaves_schedule {clock : Clock} {engine : Engine}
    (arises : (setup.start clock engine).LeadsTo s)
    (asked : (trigger setup id).outcome.EndsAmong NothingElse s (.ok key) s₁)
    (listed : run ∈ s₁.board.manual) (named : key = .manual run.rule run.sequence)
    (ran : (manualRun setup run).EndsAmong NothingElse s₁ () s') :
    s'.board.jobs = s.board.jobs ∧
    s'.board.unmarked = { s.board.unmarked with lastSequence := s.board.lastSequence + 1 } ∧
    (∃ result inner e e',
      s'.log = s.log ++ ({ kind := .runTriggered, rule := id } ::
        { kind := .runStarted, rule := id } :: inner ++ [Event.ofRun id result]) ∧
      s.catalog.get? id = some e ∧ s'.catalog.get? id = some e' ∧
      (∀ due, e.rule.nextRunAt = some due → e'.rule.nextRunAt = some due) ∧
      (e'.unrefreshed = e.unrefreshed ∨ ∃ rows t, result = .ok rows ∧
        s.clock.ShowsUntil s'.clock t ∧ e'.unrefreshed =
          (e.ran t (e.rule.nextRunAt.getD (e.rule.schedule.nextRun t))).unrefreshed)) ∧
    (∀ a, a ≠ id → s'.catalog.rule? a = s.catalog.rule? a ∧
      (s'.catalog.get? a).map Entry.unrefreshed = (s.catalog.get? a).map Entry.unrefreshed ∧
      (s'.catalog.get? a ≠ s.catalog.get? a → RefreshedFor setup id a s s')) ∧
    ∀ setup₀ id₀ key₀ s₂ s₃,
      (trigger setup₀ id₀).outcome.EndsAmong State.LeadsTo s₂ (.ok key₀) s₃ → s₃.LeadsTo s →
        key₀ ≠ key := by
  have indexed := arises.indexed Catalog.indexed_empty
  have numbered := arises.runsNumbered fun _ none_waits => absurd none_waits List.not_mem_nil
  obtain ⟨x, told, ends⟩ := (trigger_asked setup id s).of_endsAmong asked
  obtain ⟨e, told⟩ := told key rfl
  have told := told.then_alone ends
  obtain ⟨rfl, number, schedule⟩ := told.run_eq numbered listed named
  have found₁ : s₁.catalog.get? run.rule = some e := told.catalog ▸ told.found
  obtain ⟨x', ⟨⟨result, byHand⟩, board⟩, last⟩ :=
    (manualRun_runByHand (told.catalog ▸ indexed) found₁ schedule).of_endsAmong ran
  have closed : s'.board.unmarked =
      { s.board.unmarked with lastSequence := s.board.lastSequence + 1 } := by
    rw [last.board, board, told.board, number]
    exact numbered.unmarked.close_enqueued ..
  obtain ⟨⟨inner, log⟩, ⟨e₁, e', found, found', own⟩, others, refreshed⟩ :=
    byHand.then_same last.catalog last.log last.goesOn
  obtain rfl : e = e₁ := Option.some.inj (found₁.symm.trans found)
  rw [told.clock] at own
  have jobs : s'.board.jobs = s.board.jobs := by
    rw [← JobBoard.jobs_unmarked, closed, JobBoard.jobs_unmarked]
  refine ⟨jobs, closed, ⟨result, inner, e, e', ?_, told.found, found',
    ?_, own⟩, fun a other => ⟨?_, ?_, fun changed => ?_⟩, ?_⟩
  · rw [log, told.log]
    simp
  · intro due timed
    rcases own with alike | ⟨rows, t, -, -, alike⟩
    · rw [Entry.rule_eq_of_unrefreshed alike, timed]
    · rw [Entry.rule_eq_of_unrefreshed alike, Entry.ran, timed, Option.getD_some]
  · exact Catalog.rule?_eq_of_unrefreshed (told.catalog ▸ others a other)
  · exact told.catalog ▸ others a other
  · rw [← told.catalog] at changed
    exact (refreshed a other changed).after_same told.catalog told.clock
  · intro setup₀ id₀ key₀ s₂ s₃ earlier later
    exact trigger_keys_differ earlier later (asked.mono fun _ _ => NothingElse.leadsTo)

/-- Three rules, of which the last one combines the other two. Only the first one was run. -/
private def halfRun : State :=
  let upi := Condition.of "transaction_type" "=" (.text "UPI")
  let card := Condition.of "transaction_type" "=" (.text "CARD")
  let both : Composition := ⟨[.ofNat 1, .ofNat 2], .union⟩
  [.create { name := "a", conditions := [upi] }, .pass,
    .create { name := "b", conditions := [card] },
    .create { name := "c", composition := some both }].foldl
      (Operation.apply {}) (({} : Setup).start (.still ⟨0, 0⟩) {})

/-- A run of the first rule was asked for, which waits. -/
private def firstWaits : State := ((trigger {} (.ofNat 1)).outcome.run halfRun).2

/-- Then a run of the last rule was asked for. -/
private def lastAsked : State := ((trigger {} (.ofNat 3)).outcome.run firstWaits).2

/-- The run of the last rule is done, and the one of the first rule still waits. -/
private def lastDone : State := ((manualRun {} ⟨.ofNat 3, 2, .daily, false⟩).run lastAsked).2

theorem trigger_leaves_schedule_union :
    firstWaits.board.jobs.map (fun p => (p.1, p.2.state, p.2.nextRunAt)) =
        [(.ofNat 1, .scheduled, ⟨86400, 0⟩), (.ofNat 2, .scheduled, ⟨0, 0⟩),
          (.ofNat 3, .scheduled, ⟨0, 0⟩)] ∧
      lastDone.board.jobs = firstWaits.board.jobs ∧
      lastDone.catalog.list.map (fun e => (e.rule.lastRunAt, e.rule.nextRunAt)) =
        [(some ⟨0, 0⟩, some ⟨86400, 0⟩), (none, some ⟨0, 0⟩), (some ⟨0, 0⟩, some ⟨0, 0⟩)] ∧
      RefreshedFor {} (.ofNat 3) (.ofNat 2) firstWaits lastDone ∧
      (JobKey.manual (.ofNat 1) 1 : JobKey) ≠ .manual (.ofNat 3) 2 := by
  have half : (({} : Setup).start (.still ⟨0, 0⟩) {}).LeadsTo halfRun :=
    State.LeadsTo.start.applyAll _
  have first : ((trigger {} (.ofNat 1)).outcome.run halfRun).1 = .ok (.manual (.ofNat 1) 1) := by
    decide +kernel
  have earlier :=
    (trigger {} (.ofNat 1)).outcome.endsAmong_run (fun _ => State.LeadsTo.start) halfRun
  rw [first] at earlier
  have second : ((trigger {} (.ofNat 3)).outcome.run firstWaits).1 =
      .ok (.manual (.ofNat 3) 2) := by decide +kernel
  have asked := (trigger {} (.ofNat 3)).outcome.endsAmong_run NothingElse.refl firstWaits
  rw [second] at asked
  obtain ⟨jobs, -, -, others, fresh⟩ := trigger_leaves_schedule (half.run _) asked
    (by decide +kernel : (⟨.ofNat 3, 2, .daily, false⟩ : ManualRun) ∈ lastAsked.board.manual) rfl
    ((manualRun {} _).endsAmong_run NothingElse.refl lastAsked)
  obtain ⟨-, -, refreshed⟩ := others (.ofNat 2) (by decide)
  refine ⟨by decide +kernel, jobs, by decide +kernel, refreshed ?_, fresh _ _ _ _ _ earlier .start⟩
  decide +kernel

end Cohort
