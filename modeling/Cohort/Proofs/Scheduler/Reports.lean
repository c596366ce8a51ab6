import Cohort.Proofs.Run.Waiting
import Cohort.Proofs.Scheduler.Attendance

/-!
# Reports of passes

A pass over any catalogue, with cycles or with dependencies that are not there, accounts for each
rule that was due when it began, once and for no other one. Whatever fails meanwhile, the times of
the rules that succeeded are written down, and all other rules are as before. So a pass that comes
right after it takes up what failed and what was skipped. There is a report unless the clock shows
a time from which the calendar ends before a run that fails then could be tried again.

## Main definitions

* `LeftAlone` — what can change while no other operation is in progress
* `Clock.ShowsUntil`, `Clock.SoonAfter` — times of a pass, and passes that come soon
* `Books` — what the runs that have succeeded leave in the rows
* `PassReport.considered`, `PassReport.remaining` — the rules of a report

## Main results

* `Books.trans` — the books of runs one after the other
* `passOver_books` — the runs of a pass, one after the other
* `runPass_accounts` — the report of a pass, and that of the next one
* `runPass_unaccounted` — a pass without a report
-/

namespace Cohort

variable {setup : Setup} {s s' s'' : State} {c c' c'' : Clock} {id : RuleId} {r : Request}
  {t now : Instant} {rule : Rule} {ran ran' : List RuleId}

/-! ## Rules that are due -/

/-- The active rules whose time has come, or was never set. -/
def Catalog.dueAt (c : Catalog) (now : Instant) : List RuleId :=
  (c.list.filter fun e => e.isDue now).map Entry.id

theorem Entry.isDue_eq_true {e : Entry} : e.isDue now = true ↔
    e.rule.active = true ∧ ∀ due, e.rule.nextRunAt = some due → due ≤ now := by
  cases timed : e.rule.nextRunAt <;> simp [isDue, timed]

namespace Catalog.Indexed

variable {catalog : Catalog}

theorem mem_dueAt (indexed : catalog.Indexed) : id ∈ catalog.dueAt now ↔
    ∃ rule, catalog.rule? id = some rule ∧ rule.active = true ∧
      ∀ due, rule.nextRunAt = some due → due ≤ now := by
  simp only [dueAt, List.mem_map, List.mem_filter, Entry.isDue_eq_true, indexed.rule?_eq_some]
  constructor
  · rintro ⟨e, ⟨listed, due⟩, same⟩
    exact ⟨e.rule, ⟨e, listed, same, rfl⟩, due⟩
  · rintro ⟨_, ⟨e, listed, same, rfl⟩, due⟩
    exact ⟨e, ⟨listed, due⟩, same⟩

theorem nodup_dueAt (indexed : catalog.Indexed) (now : Instant) : (catalog.dueAt now).Nodup :=
  indexed.nodup_ids.sublist (List.filter_sublist.map Entry.id)

end Catalog.Indexed

/-! ## Times that are shown meanwhile -/

/-- The clock shows this time before it comes to stand like `c'`. -/
def Clock.ShowsUntil (c c' : Clock) (t : Instant) : Prop :=
  ∃ i, c.readings ≤ i ∧ i < c'.readings ∧ c.reading i = t

/-- A pass that begins with `c'` comes right after one that began with `c`: not before it, and
before the shortest interval between two runs is over since any time that the clock has shown
meanwhile. -/
structure Clock.SoonAfter (c c' : Clock) : Prop where
  later : c.read.1 ≤ c'.read.1
  soon : ∀ t, c.ShowsUntil c' t → c'.read.1 < Schedule.hourly.nextRun t

theorem Clock.ShowsUntil.extend (h : c.ShowsUntil c' t) (on : c'.GoesOn c'') :
    c.ShowsUntil c'' t := by
  obtain ⟨i, after, before, shown⟩ := h
  exact ⟨i, after, Nat.lt_of_lt_of_le before on.readings, shown⟩

theorem Clock.GoesOn.showsUntil (on : c.GoesOn c') (h : c'.ShowsUntil c'' t) :
    c.ShowsUntil c'' t := by
  obtain ⟨i, after, before, shown⟩ := h
  exact ⟨i, Nat.le_trans on.readings after, before, on.reading ▸ shown⟩

/-- The clock shows a time from which the calendar ends before a run that has failed then could be
tried again. -/
def Settings.Running.RunsOut (running : Settings.Running) (c c' : Clock) : Prop :=
  ∃ t, c.ShowsUntil c' t ∧ running.retryAt? t = none

theorem Clock.GoesOn.runsOut (on : c.GoesOn c') (h : setup.running.RunsOut c' c'') :
    setup.running.RunsOut c c'' := by
  obtain ⟨t, shown, never⟩ := h
  exact ⟨t, on.showsUntil shown, never⟩

theorem Instant.not_le_of_lt_of_le {a b d : Instant} (h : a < b) (h' : b ≤ d) : ¬ d ≤ a := by
  intro back
  have before : le b a = false := h
  have after : b ≤ a := le_trans h' back
  exact Bool.false_ne_true (before.symm.trans after)

/-- No rule is due again before an hour is over. -/
theorem Schedule.nextRun_hourly_le (schedule : Schedule) (t : Instant) :
    hourly.nextRun t ≤ schedule.nextRun t := by
  rw [Instant.le_iff]
  cases schedule <;> simp only [nextRun, seconds, Instant.after] <;> split <;> simp

/-! ## Books -/

/-- What can change while no other operation is in progress. Failures begin and end, but rows and
the clock are left alone, and the catalogue does not begin to refuse to write down the times of
runs. -/
structure LeftAlone (s s' : State) : Prop where
  catalog : s'.catalog = s.catalog
  clock : s'.clock = s.clock
  recorded : s.faults.run = {} → s'.faults.run = {}

theorem LeftAlone.refl (s : State) : LeftAlone s s := ⟨rfl, rfl, id⟩

/-- The rule after a run that has succeeded at this time. -/
def Rule.ranAt (rule : Rule) (t : Instant) : Rule :=
  { rule with lastRunAt := some t, nextRunAt := some (rule.schedule.nextRun t) }

/-- The times of these runs were written down, when the clock has shown them, and no other rule has
changed. -/
structure Books (ran : List RuleId) (s s' : State) : Prop where
  clock : s.clock.GoesOn s'.clock
  indexed : s.catalog.Indexed → s'.catalog.Indexed
  recorded : s.faults.run = {} → s'.faults.run = {}
  written : ∀ id ∈ ran, ∃ rule t, s.catalog.rule? id = some rule ∧ s.clock.ShowsUntil s'.clock t ∧
    s'.catalog.rule? id = some (rule.ranAt t)
  others : ∀ id ∉ ran, s'.catalog.rule? id = s.catalog.rule? id

/-- The books where nothing ran. -/
theorem Books.of_rule?_eq (clock : s.clock.GoesOn s'.clock)
    (indexed : s.catalog.Indexed → s'.catalog.Indexed)
    (recorded : s.faults.run = {} → s'.faults.run = {})
    (same : s'.catalog.rule? = s.catalog.rule?) : Books [] s s' :=
  ⟨clock, indexed, recorded, fun _ ran => absurd ran List.not_mem_nil, fun id _ => congrFun same id⟩

theorem Books.refl (s : State) : Books [] s s := .of_rule?_eq (.refl _) id id rfl

theorem LeftAlone.books (h : LeftAlone s s') : Books [] s s' :=
  .of_rule?_eq (h.clock ▸ .refl _) (h.catalog ▸ id) h.recorded (by rw [h.catalog])

namespace Books

/-- The books of runs one after the other, where none is run twice. -/
theorem trans (h : Books ran s s') (h' : Books ran' s' s'') (once : ran.Disjoint ran') :
    Books (ran ++ ran') s s'' where
  clock := h.clock.trans h'.clock
  indexed := h'.indexed ∘ h.indexed
  recorded := h'.recorded ∘ h.recorded
  written id ran := by
    rcases List.mem_append.mp ran with first | second
    · obtain ⟨rule, t, before, shown, after⟩ := h.written id first
      exact ⟨rule, t, before, shown.extend h'.clock, (h'.others id (once first)).trans after⟩
    · obtain ⟨rule, t, before, shown, after⟩ := h'.written id second
      have untouched := h.others id fun first => once first second
      exact ⟨rule, t, untouched ▸ before, h.clock.showsUntil shown, after⟩
  others id ran := by
    rw [List.mem_append, not_or] at ran
    exact (h'.others id ran.2).trans (h.others id ran.1)

theorem trans_nil (h : Books ran s s') (h' : Books [] s' s'') : Books ran s s'' :=
  List.append_nil ran ▸ h.trans h' (List.disjoint_nil_right _)

theorem nil_trans (h : Books [] s s') (h' : Books ran s' s'') : Books ran s s'' :=
  h.trans h' (List.disjoint_nil_left _)

end Books

/-- The request changes no rule of the catalogue. -/
def Request.leavesRules : Request → Bool
  | .insertRow _ | .replaceRow .. | .removeRow _ | .recordRun .. => false
  | _ => true

theorem Request.leavesRules_of_ofDispatch (h : r.ofDispatch = true) : r.leavesRules = true := by
  cases r <;> simp_all [ofDispatch, ofRun, ofReading, leavesRules]

namespace State

theorem perform_books (h : r.leavesRules = true) (s : State) : Books [] s (s.perform r).2 := by
  refine .of_rule?_eq (s.perform_goesOn r) (perform_indexed · r) (perform_faults_run · r) ?_
  by_cases kept : r.leavesCatalog = true
  · rw [perform_catalog kept]
  · cases r <;> simp [Request.leavesCatalog, Request.leavesRules] at kept h
    case allocateId => rfl
    case recordRefresh =>
      refine funext fun id => perform_rule? ?_ s
      exact not_false

end State

/-- The times of a run that has succeeded are written into its row. -/
theorem Books.recordRun (h : Books [] s s') (recorded : s'.faults.run = {})
    (found : s.catalog.rule? id = some rule) (shown : s.clock.ShowsUntil s'.clock t) :
    Books [id] s (s'.perform (.recordRun id t (rule.schedule.nextRun t))).2 where
  clock := h.clock.trans (s'.perform_goesOn _)
  indexed indexed := State.perform_indexed (h.indexed indexed) _
  recorded _ := State.perform_faults_run recorded _
  written a ran := by
    obtain rfl := List.mem_singleton.mp ran
    refine ⟨rule, t, found, shown.extend (s'.perform_goesOn _), ?_⟩
    have stored := (h.others a List.not_mem_nil).trans found
    exact (State.perform_recordRun_rule? stored _ _).resolve_right fun refused =>
      refused.1 recorded
  others a other := by
    have apart : ¬ (Request.recordRun id t (rule.schedule.nextRun t)).Concerns a :=
      fun same => other (List.mem_singleton.mpr same.symm)
    exact (State.perform_rule? apart s').trans (h.others a List.not_mem_nil)

/-! ## Programs that change no rule -/

section Program

variable {α β : Type}

/-- A request that changes no rule can have any answer. -/
theorem Program.follows_books_bind (kept : r.leavesRules = true) {f : r.Answer → Program β}
    {post : β → State → Prop} (before : Books ran s s')
    (h : ∀ answer s'', Books ran s s'' → (f answer).Follows (.among LeftAlone) s'' post) :
    (Program.call r >>= f).Follows (.among LeftAlone) s' post :=
  follows_among_bind fun s₁ quiet =>
    h _ _ ((before.trans_nil quiet.books).trans_nil (s₁.perform_books kept))

theorem Program.Asks.follows_books {p : Program α} (asks : p.Asks fun r => r.leavesRules = true) :
    p.Follows (.among LeftAlone) s fun _ => Books [] s :=
  asks.follows_among (Books [] s) (fun _ _ x₁ kept before quiet =>
    (before.nil_trans quiet.books).nil_trans (x₁.perform_books kept)) (.refl s)

end Program

/-- Until it is written down that a rule was run, no rule changes. -/
theorem dispatch_books (id : RuleId) (generation : Option Nat) :
    (dispatch setup id generation).Follows (.among LeftAlone) s fun _ => Books [] s :=
  (dispatch_asks (fun _ => Request.leavesRules_of_ofDispatch) id generation).follows_books

/-- The rule of a run, if its times are written down. -/
def writtenAfter (id : RuleId) : Except Failure Nat → List RuleId
  | .ok _ => [id]
  | .error _ => []

theorem eq_of_mem_writtenAfter {a : RuleId} {result : Except Failure Nat}
    (h : a ∈ writtenAfter id result) : a = id := by
  cases result with
  | ok rows => exact List.mem_singleton.mp h
  | error failure => cases h

/-- When the bookkeeping is over, these runs are written down, unless the calendar has run out. -/
def Settled (setup : Setup) (ran : List RuleId) (s : State) : Option Instant → State → Prop
  | none, s' => setup.running.RunsOut s.clock s'.clock
  | some _, s' => Books ran s s'

/-- The bookkeeping after a run comes to an end unless the run cannot be tried again. -/
theorem complete_books (recorded : s.faults.run = {}) (found : s.catalog.rule? id = some rule)
    (generation : Option Nat) (previous : Instant) (result : Except Failure Nat) :
    (complete setup id generation rule.schedule previous result).Follows (.among LeftAlone) s
      (Settled setup (writtenAfter id result) s) := by
  -- The job is finished after the row was written, or after nothing was written.
  have finish : ∀ (x : State) (next : Instant) (generation : Nat),
      Books (writtenAfter id result) s x →
      (Program.call (.finishJob id generation next) >>= fun _ => pure (some next) :
        Program (Option Instant)).Follows (.among LeftAlone) x
          (Settled setup (writtenAfter id result) s) := by
    intro x next generation books
    exact Program.follows_books_bind (r := .finishJob id generation next) rfl books
      fun _ x' books' => (Program.follows_pure _).mpr books'
  unfold complete
  refine Program.follows_among_bind fun s₁ quiet => ?_
  have books : Books [] s (s₁.perform .now).2 :=
    quiet.books.nil_trans (s₁.perform_books rfl)
  have shown : s.clock.ShowsUntil (s₁.perform .now).2.clock (s₁.perform .now).1 :=
    quiet.books.clock.showsUntil ⟨s₁.clock.readings, Nat.le_refl _, Nat.lt_succ_self _, rfl⟩
  generalize (s₁.perform .now).1 = t at shown ⊢
  generalize (s₁.perform .now).2 = s₂ at books shown ⊢
  cases result with
  | error failure =>
    cases again : setup.running.retryAt? t with
    | none =>
      have never : dueAfter? setup.running rule.schedule previous t (.error failure) = none := by
        rw [dueAfter?, again, Option.map_none]
      rw [never]
      exact (Program.follows_pure _).mpr ⟨t, shown, again⟩
    | some retry =>
      have due : dueAfter? setup.running rule.schedule previous t (.error failure) =
          some (Instant.latest previous retry) := by
        rw [dueAfter?, again, Option.map_some]
      rw [due]
      cases generation with
      | none => exact (Program.follows_pure _).mpr books
      | some generation => exact finish s₂ _ generation books
  | ok rows =>
    refine Program.follows_among_bind fun s₃ quiet₃ => ?_
    have books₃ := books.nil_trans quiet₃.books
    have written := books₃.recordRun (books₃.recorded recorded) found
      (shown.extend quiet₃.books.clock)
    cases generation with
    | none => exact (Program.follows_pure _).mpr written
    | some generation => exact finish _ _ generation written

/-! ## Passes -/

/-- All rules of a report. -/
def PassReport.considered (report : PassReport) : List RuleId :=
  report.succeeded.map Prod.fst ++ (report.failed.map Prod.fst ++ report.skipped)

/-- The rules of a report that have not succeeded. -/
def PassReport.remaining (report : PassReport) : List RuleId :=
  report.failed.map Prod.fst ++ report.skipped

/-- What the runs of some entries add to a report, and what they leave in the books. -/
structure PassReport.Adds (entries : List Entry) (report report' : PassReport) (s s' : State) : Prop
    where
  skipped : report'.skipped = report.skipped
  outcomes : ∃ ran failed, report'.succeeded.map Prod.fst = report.succeeded.map Prod.fst ++ ran ∧
    report'.failed.map Prod.fst = report.failed.map Prod.fst ++ failed ∧
    (ran ++ failed).Perm (entries.map Entry.id) ∧ Books ran s s'

theorem PassReport.Adds.cons {e : Entry} {rest : List Entry} {result : Except Failure Nat}
    {report report' : PassReport} (books : Books (writtenAfter e.id result) s s')
    (h : Adds rest (report.add e.id result) report' s' s'')
    (once : ((e :: rest).map Entry.id).Nodup) : Adds (e :: rest) report report' s s'' := by
  obtain ⟨skipped, ran, failed, succeeded_eq, failed_eq, perm, books'⟩ := h
  have fresh : e.id ∉ rest.map Entry.id := (List.nodup_cons.mp once).1
  have disjoint : (writtenAfter e.id result).Disjoint ran := by
    intro a first later
    obtain rfl := eq_of_mem_writtenAfter first
    exact fresh (perm.mem_iff.mp (List.mem_append_left _ later))
  have both := books.trans books' disjoint
  cases result with
  | ok rows =>
    refine ⟨skipped, e.id :: ran, failed, ?_, failed_eq, perm.cons e.id, both⟩
    simpa [add] using succeeded_eq
  | error failure =>
    refine ⟨skipped, ran, e.id :: failed, succeeded_eq, ?_, ?_, both⟩
    · simpa [add] using failed_eq
    · exact List.perm_middle.trans (perm.cons e.id)

/-- The runs of a pass, one after the other, are all accounted for. -/
theorem passOver_books (began : Instant) (entries : List Entry) (report : PassReport)
    (recorded : s.faults.run = {}) (once : (entries.map Entry.id).Nodup)
    (rules : ∀ e ∈ entries, s.catalog.rule? e.id = some e.rule) :
    (passOver setup began entries report).Follows (.among LeftAlone) s fun result s' =>
      match result with
      | none => setup.running.RunsOut s.clock s'.clock
      | some report' => report.Adds entries report' s s' := by
  induction entries generalizing report s with
  | nil => exact (Program.follows_pure _).mpr ⟨rfl, [], [], by simp, by simp, .nil, .refl s⟩
  | cons e rest ih =>
    obtain ⟨fresh, once_rest⟩ := List.nodup_cons.mp once
    unfold passOver
    refine Program.follows_books_bind (r := .jobGeneration e.id) rfl (.refl s) ?_
    intro generation s₁ books₁
    refine (dispatch_books e.id generation).bind fun result s₂ books₂ => ?_
    have before := books₁.nil_trans books₂
    have found : s₂.catalog.rule? e.id = some e.rule :=
      (before.others e.id List.not_mem_nil).trans (rules e List.mem_cons_self)
    refine (complete_books (before.recorded recorded) found generation _ result).bind ?_
    rintro (_ | time) s₃ settled
    · exact (Program.follows_pure _).mpr (before.clock.runsOut settled)
    · have books := before.nil_trans settled
      -- The entries to come have other rules than the one that was run, so theirs are as before.
      have rules_rest : ∀ x ∈ rest, s₃.catalog.rule? x.id = some x.rule := by
        intro x listed
        have other : x.id ∉ writtenAfter e.id result := fun ran =>
          fresh (eq_of_mem_writtenAfter ran ▸ List.mem_map_of_mem listed)
        exact (books.others x.id other).trans (rules x (.tail _ listed))
      refine (ih (report.add e.id result) (books.recorded recorded) once_rest rules_rest).mono ?_
      rintro (_ | report') s₄ post
      · exact books.clock.runsOut post
      · exact .cons books post once

/-- The report of a pass has each rule that was due when it began. -/
theorem runPass_books (indexed : s.catalog.Indexed) (recorded : s.faults.run = {}) :
    (runPass setup).Follows (.among LeftAlone) s fun result s' =>
      match result with
      | none => setup.running.RunsOut s.clock s'.clock
      | some report => report.considered.Perm (s.catalog.dueAt s.clock.read.1) ∧
          Books (report.succeeded.map Prod.fst) s s' := by
  unfold runPass
  -- The clock and the rows are read first, and nothing has changed by then.
  refine Program.follows_among_bind fun s₁ quiet₁ => ?_
  have books₁ : Books [] s (s₁.perform .now).2 :=
    quiet₁.books.nil_trans (s₁.perform_books rfl)
  have catalog₁ : (s₁.perform .now).2.catalog = s.catalog := quiet₁.catalog
  have began : (s₁.perform .now).1 = s.clock.read.1 := congrArg (fun c => c.read.1) quiet₁.clock
  rw [began]
  generalize (s₁.perform .now).2 = s₂ at books₁ catalog₁ ⊢
  refine Program.follows_among_bind fun s₃ quiet₃ => ?_
  have books := books₁.nil_trans quiet₃.books
  have listed : (s₃.perform .listRows).1 = s.catalog.list := by
    rw [← catalog₁, ← quiet₃.catalog]
    rfl
  rw [listed]
  dsimp only
  have once : ((s.catalog.list.filter fun e => e.isDue s.clock.read.1).map Entry.id).Nodup :=
    indexed.nodup_dueAt _
  have rules : ∀ e ∈ (executionOrder (s.catalog.list.filter fun e =>
      e.isDue s.clock.read.1)).ordered.filterMap fun id =>
        (s.catalog.list.filter fun e => e.isDue s.clock.read.1).find? fun e => e.id = id,
      s₃.catalog.rule? e.id = some e.rule := by
    intro e placed
    have due := (List.mem_filter.mp (mem_of_mem_executionOrder_entries placed)).1
    exact (books.others e.id List.not_mem_nil).trans (indexed.rule?_of_mem due)
  refine (passOver_books (s := s₃) s.clock.read.1 _ _ (books.recorded recorded)
    (nodup_executionOrder_entries _) rules).mono ?_
  rintro (_ | report) s' post
  · exact books.clock.runsOut post
  · -- What was run and what is left over on cycles are together all that was due.
    obtain ⟨skipped, ran, failed, succeeded_eq, failed_eq, perm, books'⟩ := post
    rw [map_id_executionOrder_entries] at perm
    rw [List.map_nil, List.nil_append] at succeeded_eq failed_eq
    refine ⟨?_, succeeded_eq ▸ books.nil_trans books'⟩
    rw [PassReport.considered, succeeded_eq, failed_eq, skipped, ← List.append_assoc]
    exact (perm.append_right _).trans (executionOrder_perm_ids once)

/-- What a pass has done is kept for good: this is what the rules look like when the next one
begins. -/
theorem Books.mem_dueAt (books : Books ran s s') (indexed : s.catalog.Indexed)
    (after : s.clock.SoonAfter s'.clock) : id ∈ s'.catalog.dueAt s'.clock.read.1 ↔
      id ∉ ran ∧ id ∈ s.catalog.dueAt s'.clock.read.1 := by
  rw [(books.indexed indexed).mem_dueAt, indexed.mem_dueAt]
  by_cases written : id ∈ ran
  · -- What was run is not due again before an hour is over.
    obtain ⟨rule, t, -, shown, now⟩ := books.written id written
    refine iff_of_false ?_ fun other => other.1 written
    rintro ⟨_, found, -, due⟩
    obtain rfl := Option.some.inj (now.symm.trans found)
    exact Instant.not_le_of_lt_of_le (after.soon t shown) (rule.schedule.nextRun_hourly_le t)
      (due _ rfl)
  · rw [books.others id written]
    exact (and_iff_right written).symm

/-- What was due stays due as time goes on. -/
theorem Catalog.Indexed.dueAt_subset (indexed : s.catalog.Indexed) {now later : Instant}
    (after : now ≤ later) : s.catalog.dueAt now ⊆ s.catalog.dueAt later := by
  intro id
  rw [indexed.mem_dueAt, indexed.mem_dueAt]
  rintro ⟨rule, found, active, due⟩
  exact ⟨rule, found, active, fun time timed => Instant.le_trans (due time timed) after⟩

/-- A pass accounts for the rules that were due when it began, each of them once, and for no others.
The rules that have succeeded keep the time at which they were run, and are due one interval after
it. All others are as before, and so are those that have failed or were skipped. The next pass, if
it comes right after this one, takes up those and what has come due since. There is a report unless
the clock shows a time from which the calendar ends before a run that fails then could be tried
again. A pass that goes on alone never waits. -/
theorem runPass_accounts (setup : Setup) {s : State} (indexed : s.catalog.Indexed)
    (recorded : s.faults.run = {}) :
    (s.locks = [] → 0 < s.slots → (runPass setup).NeverWaits s) ∧
    ∀ result s', (runPass setup).EndsAmong LeftAlone s result s' →
      (result = none →
        ∃ t, s.clock.ShowsUntil s'.clock t ∧ setup.running.retryAt? t = none) ∧
      ∀ report, result = some report →
        report.considered.Nodup ∧
        report.considered.Perm (s.catalog.dueAt s.clock.read.1) ∧
        (∀ id ∈ report.succeeded.map Prod.fst, ∃ rule t, s.catalog.rule? id = some rule ∧
          s.clock.ShowsUntil s'.clock t ∧ s'.catalog.rule? id = some { rule with
            lastRunAt := some t, nextRunAt := some (rule.schedule.nextRun t) }) ∧
        (∀ id ∉ report.succeeded.map Prod.fst, s'.catalog.rule? id = s.catalog.rule? id) ∧
        ∀ again s'', s.clock.SoonAfter s'.clock →
          (runPass setup).EndsAmong LeftAlone s' (some again) s'' →
          (∀ id, id ∈ again.considered ↔ id ∈ report.remaining ∨
            id ∈ s.catalog.dueAt s'.clock.read.1 ∧ id ∉ s.catalog.dueAt s.clock.read.1) ∧
          (s.catalog.dueAt s'.clock.read.1 ⊆ s.catalog.dueAt s.clock.read.1 →
            again.considered.Perm report.remaining) := by
  refine ⟨fun unlocked free => runPass_neverWaits unlocked free, fun result s' ends => ?_⟩
  obtain ⟨s₁, post, quiet⟩ := (runPass_books indexed recorded).of_endsAmong ends
  refine ⟨?_, ?_⟩
  · rintro rfl
    obtain ⟨t, shown, never⟩ := post
    exact ⟨t, shown.extend quiet.books.clock, never⟩
  rintro report rfl
  obtain ⟨perm, books₁⟩ := post
  have books := books₁.trans_nil quiet.books
  have nodup : report.considered.Nodup := perm.nodup_iff.mpr (indexed.nodup_dueAt _)
  refine ⟨nodup, perm, books.written, books.others, fun again s'' after next => ?_⟩
  obtain ⟨s₂, ⟨perm', -⟩, -⟩ :=
    (runPass_books (books.indexed indexed) (books.recorded recorded)).of_endsAmong next
  -- What is considered succeeds or remains, and not both.
  have remains : ∀ id, id ∈ report.remaining ↔
      id ∉ report.succeeded.map Prod.fst ∧ id ∈ s.catalog.dueAt s.clock.read.1 := by
    intro id
    rw [← perm.mem_iff, PassReport.considered, List.mem_append]
    have apart := (List.nodup_append'.mp nodup).2.2
    exact ⟨fun left => ⟨fun done => apart done left, .inr left⟩, fun h => h.2.resolve_left h.1⟩
  have considered : ∀ id, id ∈ again.considered ↔ id ∈ report.remaining ∨
      id ∈ s.catalog.dueAt s'.clock.read.1 ∧ id ∉ s.catalog.dueAt s.clock.read.1 := by
    intro id
    rw [perm'.mem_iff, books.mem_dueAt indexed after, remains]
    -- What has succeeded is not due now. All else is due now if it was before, or has come due.
    by_cases due : id ∈ s.catalog.dueAt s.clock.read.1
    · have stays := indexed.dueAt_subset after.later due
      simp only [due, stays, not_true_eq_false, and_true, and_false, or_false]
    · have unrun : id ∉ report.succeeded.map Prod.fst := fun ran =>
        due (perm.mem_iff.mp (List.mem_append_left _ ran))
      simp only [due, unrun, not_false_eq_true, and_true, true_and, and_false, false_or]
  refine ⟨considered, fun none_came => ?_⟩
  have nodup' : again.considered.Nodup :=
    perm'.nodup_iff.mpr ((books.indexed indexed).nodup_dueAt _)
  refine (List.perm_ext_iff_of_nodup nodup' (List.nodup_append'.mp nodup).2.1).mpr fun id => ?_
  rw [considered]
  exact or_iff_left fun came => came.2 (none_came came.1)

/-- A system with a rule that can be run, one that combines a rule that is not there, and two that
combine each other. -/
private def entangled : State :=
  let upi := Condition.of "transaction_type" "=" (.text "UPI")
  let created := Operation.apply {} (({} : Setup).start (.still ⟨0, 0⟩) {})
    (.create { name := "a", conditions := [upi] })
  { created with
    clock := .still ⟨0, 0⟩
    catalog := { created.catalog with
      rows := created.catalog.rows ++ [(.ofNat 2, .combining 2 [9]), (.ofNat 3, .combining 3 [4]),
        (.ofNat 4, .combining 4 [3])] } }

theorem runPass_accounts_entangled : entangled.catalog.Indexed ∧ entangled.faults.run = {} ∧
    (runPass {}).NeverWaits entangled ∧
    ∃ report again, ((runPass {}).run entangled).1 = some report ∧
      report.succeeded = [(.ofNat 1, 0)] ∧ report.failed.map Prod.fst = [.ofNat 2] ∧
      report.skipped = [.ofNat 3, .ofNat 4] ∧
      ((runPass {}).run ((runPass {}).run entangled).2).1 = some again ∧
      again.considered.Perm [.ofNat 2, .ofNat 3, .ofNat 4] := by
  have indexed : entangled.catalog.Indexed := ⟨by decide +kernel, by decide +kernel⟩
  have recorded : entangled.faults.run = {} := by decide +kernel
  obtain ⟨waits, accounts⟩ := runPass_accounts {} indexed recorded
  have first : ((runPass {}).run entangled).1 =
      some ⟨[(.ofNat 1, 0)], [(.ofNat 2, .dependencyLoad (.ofNat 2) (.ofNat 9) .notInCatalog)],
        [.ofNat 3, .ofNat 4]⟩ := by decide +kernel
  obtain ⟨again, second⟩ := Option.isSome_iff_exists.mp
    (by decide +kernel : ((runPass {}).run ((runPass {}).run entangled).2).1.isSome = true)
  obtain ⟨-, -, -, -, next⟩ :=
    (accounts _ _ ((runPass {}).endsAmong_run LeftAlone.refl entangled)).2 _ first
  -- The clock stands still, so the next pass comes right after this one, and no other rule is due.
  have now : ((runPass {}).run entangled).2.clock.read.1 = ⟨0, 0⟩ := by decide +kernel
  have soon : entangled.clock.SoonAfter ((runPass {}).run entangled).2.clock := by
    refine ⟨now ▸ Instant.le_refl _, ?_⟩
    rintro _ ⟨i, -, -, rfl⟩
    rw [now]
    exact (by decide : (⟨0, 0⟩ : Instant) < Schedule.hourly.nextRun ⟨0, 0⟩)
  have ends := (runPass {}).endsAmong_run LeftAlone.refl ((runPass {}).run entangled).2
  rw [second] at ends
  obtain ⟨-, remain⟩ := next again _ soon ends
  refine ⟨indexed, recorded, waits (by decide +kernel) (by decide +kernel), _, again, first, rfl,
    rfl, rfl, second, remain ?_⟩
  rw [now]
  exact List.Subset.refl _

/-- Where runs that fail are tried again after more time than the calendar has, and nothing is
refreshed on demand. -/
private def endless : Setup :=
  { running := { retryDelaySeconds := 9223372036854775807, refreshStale := false } }

/-- A system with one transaction, a rule that is not active, and one that combines it. -/
private def dormant : State :=
  let transactions : List Transaction :=
    [⟨some "ann", 10.0, ⟨2024, 8, 1, by decide⟩, 1, "UPI", none⟩]
  let amount := Condition.of "amount" ">=" (.int 1)
  let started := endless.start (.still ⟨0, 0⟩) { transactions }
  Operation.apply endless (Operation.apply endless started
    (.create { name := "a", conditions := [amount], active := false }))
    (.create { name := "b", composition := some ⟨[.ofNat 1], .union⟩ })

/-- A rule is due and its run fails, but there is no report. -/
theorem runPass_unaccounted : dormant.catalog.Indexed ∧ dormant.faults = {} ∧
    dormant.catalog.dueAt dormant.clock.read.1 = [.ofNat 2] ∧
    ((execute endless (.ofNat 2)).outcome.run dormant).1 =
      .error (.dependencyLoad (.ofNat 2) (.ofNat 1) .neverMaterialized) ∧
    ((runPass endless).run dormant).1 = none := by
  refine ⟨⟨?_, ?_⟩, ?_, ?_, ?_, ?_⟩ <;> decide +kernel

end Cohort
