import Cohort.Dispatch
import Cohort.Proofs.Calendar.Times
import Cohort.Proofs.Scheduler.Board

/-!
# Runs that are tried again

After a run that has failed the catalogue stays as it is, and the job of the run, if it is still the
same one, is due again after the delay that is set, but not before the time at which it was due.
The delay is counted as a signed number, so that large delays lead back in time, and there is no
time to try again where the calendar ends before it.

## Main definitions

* `Settings.Running.delay` — the delay as it is counted
* `JobBoard.Rearmed` — the job of a rule is due again, if it is still the same one
* `TriesAgain` — a failure is settled with a time that has not passed

## Main results

* `Instant.le_latest_iff`, `Instant.le_after_iff` — the order of the times that are compared
* `JobBoard.rearmed_finish` — what the end of a run makes of the jobs
* `complete_after_failure` — what follows from a failure, and when it is settled as it should be
-/

namespace Cohort

/-! ## Times -/

namespace Instant

variable {a b c : Instant}

/-- What is not later than the later of two instants is not later than one of them. -/
theorem le_latest_iff : c ≤ latest a b ↔ c ≤ a ∨ c ≤ b := by
  unfold latest
  split
  · next before => exact ⟨.inr, fun h => h.elim (fun h => le_trans h before) id⟩
  · next after => exact ⟨.inl, fun h => h.elim id fun h => le_trans h (le_of_not_le after)⟩

/-- Counting on is going on, and counting back is going back. -/
theorem le_after_iff {n : Int} (t : Instant) : t ≤ t.after n ↔ 0 ≤ n := by
  rw [le_iff]
  by_cases leap : 1000000000 ≤ t.nanos
  · rw [after, if_pos leap]
    split
    · dsimp only
      omega
    · split
      · dsimp only
        omega
      · omega
  · rw [after, if_neg leap]
    dsimp only
    omega

end Instant

/-- The delay as it is counted: large numbers of seconds count as negative ones. -/
def Settings.Running.delay (r : Settings.Running) : Int := r.retryDelaySeconds.toInt64.toInt

theorem Settings.Running.delay_nonneg_iff (r : Settings.Running) :
    0 ≤ r.delay ↔ r.retryDelaySeconds.toNat < twoTo 63 := by
  have counted : r.delay = r.retryDelaySeconds.toBitVec.toInt := rfl
  have half : twoTo 63 = 9223372036854775808 := rfl
  have bounded := r.retryDelaySeconds.toBitVec.isLt
  rw [counted, BitVec.toInt_eq_toNat_cond, UInt64.toNat_toBitVec] at *
  split <;> omega

/-- There is a time to try again where the calendar does not end before it. -/
theorem Settings.Running.retryAt?_eq (r : Settings.Running) (now : Instant) :
    r.retryAt? now =
      if (now.after r.delay).inCalendar then some (now.after r.delay) else none := rfl

/-! ## Jobs -/

/-- The job of the rule, if it is still of this generation, is not running any more and due again at
this time. Nothing else has changed, and nothing at all if the job is not there any more. -/
structure JobBoard.Rearmed (b b' : JobBoard) (rule : RuleId) (generation : Option Nat)
    (next : Instant) : Prop where
  current : ∀ job, b.job? rule = some job → generation = some job.generation →
    b'.job? rule = some { job with
      state := if job.state = .running then .scheduled else job.state, nextRunAt := next }
  outdated : (∀ job, b.job? rule = some job → generation ≠ some job.generation) → b' = b
  others : ∀ id ≠ rule, b'.job? id = b.job? id
  manual : b'.manual = b.manual
  lastGeneration : b'.lastGeneration = b.lastGeneration

namespace JobBoard

variable {b : JobBoard} {rule : RuleId} {generation : Nat} {f : Job → Job}

theorem modify_outdated (outdated : ∀ job, b.job? rule = some job → generation ≠ job.generation) :
    b.modify rule generation f = b := by
  unfold modify
  split
  · next job found => rw [if_neg (Ne.symm (outdated job found))]
  · rfl

theorem manual_modify (b : JobBoard) (rule : RuleId) (generation : Nat) (f : Job → Job) :
    (b.modify rule generation f).manual = b.manual := by
  unfold modify
  split
  · split <;> rfl
  · rfl

theorem rearmed_finish (b : JobBoard) (rule : RuleId) (generation : Nat) (next : Instant) :
    b.Rearmed (b.finish rule generation next) rule (some generation) next where
  current job found same := by
    obtain rfl := Option.some.inj same
    rw [finish, job?_modify_self found]
    by_cases running : job.state = .running
    · rw [if_pos running, if_pos running, move, if_pos (by rw [running]; decide)]
    · rw [if_neg running, if_neg running]
  outdated other := modify_outdated fun job found same => other job found (congrArg some same)
  others id other := by rw [finish, job?_modify, if_neg (Ne.symm other)]
  manual := manual_modify ..
  lastGeneration := lastGeneration_modify ..

/-- A run that belongs to no job leaves the jobs as they are. -/
theorem rearmed_none (b : JobBoard) (rule : RuleId) (next : Instant) :
    b.Rearmed b rule none next where
  current job found same := by cases same
  outdated _ := rfl
  others id other := rfl
  manual := rfl
  lastGeneration := rfl

end JobBoard

/-! ## Failures -/

variable (setup : Setup) (id : RuleId) (generation : Option Nat) (schedule : Schedule)
  (previous : Instant) (failure : Failure) (s : State)

/-- The failure of a run is settled: there is a time to try again, which is neither before now nor
before the time at which the run was due. The catalogue is as it was, and the job of the run is due
at that time if and only if it is still the same one. -/
def TriesAgain : Prop :=
  ∃ next s', (complete setup id generation schedule previous (.error failure)).run s =
      (some next, s') ∧ s.clock.read.1 ≤ next ∧ previous ≤ next ∧ s'.catalog = s.catalog ∧
    s.board.Rearmed s'.board id generation next

/-- Where the calendar does not end before the retry, the answer is its time or the one at which the
run was due, whichever is later, and the job is due then. -/
theorem complete_run_of_inCalendar
    (in_calendar : (s.clock.read.1.after setup.running.delay).inCalendar = true) :
    let next := Instant.latest previous (s.clock.read.1.after setup.running.delay)
    ∃ board, (complete setup id generation schedule previous (.error failure)).run s =
        (some next, { s with clock := s.clock.read.2, board }) ∧
      s.board.Rearmed board id generation next := by
  intro next
  have due : dueAfter? setup.running schedule previous ((Program.call .now).run s).1
      (.error failure) = some next := by
    have again := setup.running.retryAt?_eq s.clock.read.1
    rw [if_pos in_calendar] at again
    exact congrArg (Option.map (Instant.latest previous)) again
  cases generation with
  | none =>
    refine ⟨s.board, ?_, s.board.rearmed_none ..⟩
    rw [complete, Program.run_bind, due]
    rfl
  | some generation =>
    refine ⟨s.board.finish id generation _, ?_, s.board.rearmed_finish ..⟩
    rw [complete, Program.run_bind, due]
    rfl

/-- Where it ends before, nothing happens. -/
theorem complete_run_of_not_inCalendar
    (ended : (s.clock.read.1.after setup.running.delay).inCalendar = false) :
    (complete setup id generation schedule previous (.error failure)).run s =
      (none, { s with clock := s.clock.read.2 }) := by
  have due : dueAfter? setup.running schedule previous ((Program.call .now).run s).1
      (.error failure) = none := by
    have never := setup.running.retryAt?_eq s.clock.read.1
    rw [ended, if_neg Bool.false_ne_true] at never
    exact congrArg (Option.map (Instant.latest previous)) never
  rw [complete, Program.run_bind, due]
  rfl

theorem triesAgain_iff : TriesAgain setup id generation schedule previous failure s ↔
    (s.clock.read.1.after setup.running.delay).inCalendar = true ∧
      (setup.running.retryDelaySeconds.toNat < twoTo 63 ∨ s.clock.read.1 ≤ previous) := by
  rw [← Settings.Running.delay_nonneg_iff]
  cases in_calendar : (s.clock.read.1.after setup.running.delay).inCalendar with
  | false =>
    rw [TriesAgain, complete_run_of_not_inCalendar setup id generation schedule previous failure s
      in_calendar]
    simp
  | true =>
    obtain ⟨board, result, rearmed⟩ :=
      complete_run_of_inCalendar setup id generation schedule previous failure s in_calendar
    -- The time is the later one of two, so one of them must not have passed.
    rw [TriesAgain, result, and_iff_right rfl, ← Instant.le_after_iff s.clock.read.1, Or.comm,
      ← Instant.le_latest_iff]
    constructor
    · rintro ⟨next, s', same, from_now, -⟩
      cases same
      exact from_now
    · exact fun from_now => ⟨_, _, rfl, from_now, Instant.le_latest .., rfl, rearmed⟩

/-- After a failure nothing changes but the clock and the jobs. There is an answer if the calendar
does not end before the retry: it is the time of the retry or the one at which the run was due,
whichever is later, and the job of the run is due then if it is still the same one. That time has not
passed yet if the delay is below 2^63 seconds, and otherwise only if the run was not due yet. -/
theorem complete_after_failure (setup : Setup) (id : RuleId) (generation : Option Nat)
    (schedule : Schedule) (previous : Instant) (failure : Failure) (s : State) :
    let now := s.clock.read.1
    let retry := now.after setup.running.delay
    (retry.inCalendar = true → ∃ board,
      (complete setup id generation schedule previous (.error failure)).run s =
        (some (Instant.latest previous retry), { s with clock := s.clock.read.2, board }) ∧
      previous ≤ Instant.latest previous retry ∧
      s.board.Rearmed board id generation (Instant.latest previous retry)) ∧
    (retry.inCalendar = false →
      (complete setup id generation schedule previous (.error failure)).run s =
        (none, { s with clock := s.clock.read.2 })) ∧
    (TriesAgain setup id generation schedule previous failure s ↔ retry.inCalendar = true ∧
      (setup.running.retryDelaySeconds.toNat < twoTo 63 ∨ now ≤ previous)) := by
  refine ⟨fun in_calendar => ?_, fun ended => complete_run_of_not_inCalendar _ _ _ _ _ _ _ ended,
    triesAgain_iff ..⟩
  obtain ⟨board, result, rearmed⟩ :=
    complete_run_of_inCalendar setup id generation schedule previous failure s in_calendar
  exact ⟨board, result, Instant.le_latest .., rearmed⟩

/-- Runs that fail are tried again after this many seconds. -/
private def delayed (seconds : UInt64) : Setup := { running := { retryDelaySeconds := seconds } }

/-- A rule has had a job since the start of 1970, and two seconds have passed. -/
private def due (seconds : UInt64) : State :=
  ((delayed seconds).start (.still ⟨2, 0⟩) {}).perform (.installJob (.ofNat 1) ⟨0, 0⟩ none) |>.2

/-- After a delay of `2^63 - 1` seconds there is no time to try again, and one of `2^64 - 1` seconds
leads to a time that has passed. -/
theorem not_triesAgain_of_long_delay :
    ¬ TriesAgain (delayed 9223372036854775807) (.ofNat 1) (some 1) .daily ⟨0, 0⟩
      (.ruleNotFound (.ofNat 1)) (due 9223372036854775807) ∧
    ¬ TriesAgain (delayed 18446744073709551615) (.ofNat 1) (some 1) .daily ⟨0, 0⟩
      (.ruleNotFound (.ofNat 1)) (due 18446744073709551615) := by
  constructor
  · rw [triesAgain_iff]
    rintro ⟨in_calendar, -⟩
    exact absurd in_calendar (by decide +kernel)
  · rw [triesAgain_iff]
    rintro ⟨-, soon⟩
    exact absurd soon (by decide +kernel)

end Cohort
