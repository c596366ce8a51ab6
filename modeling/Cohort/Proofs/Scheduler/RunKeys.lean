import Cohort.Proofs.Manager.History
import Cohort.Proofs.Program.Among
import Cohort.Proofs.Scheduler.Attendance

/-!
# Keys of manual runs

A run that is asked for by hand gets a number, and its key has this number and the rule. Whatever
goes on in a system, in whatever order, numbers are only given out one after the other, so that no
key is ever given out again.

## Main definitions

* `JobBoard.AddsNoRun` — no run was asked for
* `State.LeadsTo` — one state comes after another, by any requests in any order
* `JobBoard.RunsNumbered` — all runs that wait have numbers that were given out

## Main results

* `State.LeadsTo.lastSequence_le` — numbers are never taken back
* `trigger_follows_numbers` — the number of a key was not given out before
* `trigger_keys_differ` — two runs that are asked for never have the same key
-/

namespace Cohort

variable {setup setup' : Setup} {b b' : JobBoard} {s₀ s s' s₁ s₂ s₃ : State} {id id' : RuleId}
  {key key' : JobKey}

namespace JobBoard

/-! ## Boards to which no run was added -/

/-- No number was given out, and no run is new. -/
structure AddsNoRun (b b' : JobBoard) : Prop where
  given : b'.lastSequence = b.lastSequence
  runs : ∀ run' ∈ b'.manual, ∃ run ∈ b.manual, run.sequence = run'.sequence

theorem AddsNoRun.of_subset (given : b'.lastSequence = b.lastSequence)
    (runs : b'.manual ⊆ b.manual) : b.AddsNoRun b' :=
  ⟨given, fun run there => ⟨run, runs there, rfl⟩⟩

theorem AddsNoRun.refl (b : JobBoard) : b.AddsNoRun b := .of_subset rfl (List.Subset.refl _)

theorem addsNoRun_modify (b : JobBoard) (rule : RuleId) (generation : Nat) (f : Job → Job) :
    b.AddsNoRun (b.modify rule generation f) := by
  unfold modify
  split
  · split
    · exact .of_subset rfl (List.Subset.refl _)
    · exact .refl b
  · exact .refl b

theorem addsNoRun_drop (b : JobBoard) (rule : RuleId) (generation : Nat) :
    b.AddsNoRun (b.drop rule generation) := by
  unfold drop
  split
  · exact .of_subset rfl (List.Subset.refl _)
  · exact .refl b

/-! ## Numbers that were given out -/

/-- The numbers of all runs that wait were given out. -/
def RunsNumbered (b : JobBoard) : Prop := ∀ run ∈ b.manual, run.sequence ≤ b.lastSequence

theorem AddsNoRun.runsNumbered (h : b.AddsNoRun b') (numbered : b.RunsNumbered) :
    b'.RunsNumbered := by
  intro run' there
  obtain ⟨run, listed, same⟩ := h.runs run' there
  rw [← same, h.given]
  exact numbered run listed

theorem RunsNumbered.enqueue (numbered : b.RunsNumbered) (rule : RuleId) (schedule : Schedule) :
    (b.enqueue rule schedule).2.RunsNumbered := by
  intro run there
  rcases List.mem_append.mp there with waiting | new
  · exact Nat.le_succ_of_le (numbered run waiting)
  · rw [List.mem_singleton.mp new]
    exact Nat.le_refl _

/-- The run that was added is the only one that has its number. -/
theorem RunsNumbered.eq_of_enqueued (numbered : b.RunsNumbered) {rule : RuleId}
    {schedule : Schedule} {run : ManualRun} (there : run ∈ (b.enqueue rule schedule).2.manual)
    (number : run.sequence = (b.enqueue rule schedule).1) :
    run = { rule, sequence := (b.enqueue rule schedule).1, schedule } := by
  rcases List.mem_append.mp there with waiting | new
  · have given := numbered run waiting
    rw [number] at given
    exact absurd given (Nat.not_succ_le_self _)
  · exact List.mem_singleton.mp new

end JobBoard

/-! ## States that come one after the other -/

/-- A state comes after another: requests of any kind are made by whoever makes them, and between
them everything can change but the rows and the runs that are asked for. -/
inductive State.LeadsTo (s₀ : State) : State → Prop
  | start : LeadsTo s₀ s₀
  | request {s : State} (before : LeadsTo s₀ s) (r : Request) : LeadsTo s₀ (s.perform r).2
  | meanwhile {s s' : State} (before : LeadsTo s₀ s) (catalog : s'.catalog = s.catalog)
      (board : s.board.AddsNoRun s'.board) : LeadsTo s₀ s'

/-- Only a request for a run by hand adds one. -/
theorem State.perform_addsNoRun {r : Request} (other : ∀ id schedule, r ≠ .enqueueRun id schedule)
    (s : State) : s.board.AddsNoRun (s.perform r).2.board := by
  by_cases rows : r.ofRows = true
  · rw [perform_ofRows_board rows]
    exact .refl _
  · cases r <;> simp [Request.ofRows] at rows
    case enqueueRun id schedule => exact absurd rfl (other id schedule)
    case removeJob => exact .of_subset rfl (List.filter_subset_self _)
    case clearJobs => exact .of_subset rfl (List.nil_subset _)
    case closeRun => exact .of_subset rfl (List.filter_subset_self _)
    case fireJob => exact JobBoard.addsNoRun_modify ..
    case finishJob => exact JobBoard.addsNoRun_modify ..
    case armJob => exact JobBoard.addsNoRun_modify ..
    case dropJob => exact JobBoard.addsNoRun_drop ..
    all_goals exact .of_subset rfl (List.Subset.refl _)

theorem State.perform_lastSequence_le (s : State) (r : Request) :
    s.board.lastSequence ≤ (s.perform r).2.board.lastSequence := by
  by_cases added : ∃ id schedule, r = .enqueueRun id schedule
  · obtain ⟨id, schedule, rfl⟩ := added
    exact Nat.le_succ _
  · have other := perform_addsNoRun (fun id schedule same => added ⟨id, schedule, same⟩) s
    exact Nat.le_of_eq other.given.symm

theorem State.perform_runsNumbered (numbered : s.board.RunsNumbered) (r : Request) :
    (s.perform r).2.board.RunsNumbered := by
  by_cases added : ∃ id schedule, r = .enqueueRun id schedule
  · obtain ⟨id, schedule, rfl⟩ := added
    exact numbered.enqueue id schedule
  · exact (perform_addsNoRun (fun id schedule same => added ⟨id, schedule, same⟩) s).runsNumbered
      numbered

namespace State.LeadsTo

theorem lastSequence_le (h : s₀.LeadsTo s) : s₀.board.lastSequence ≤ s.board.lastSequence := by
  induction h with
  | start => exact Nat.le_refl _
  | @request s _ r ih => exact Nat.le_trans ih (s.perform_lastSequence_le r)
  | meanwhile _ _ board ih => exact board.given ▸ ih

theorem runsNumbered (h : s₀.LeadsTo s) (numbered : s₀.board.RunsNumbered) :
    s.board.RunsNumbered := by
  induction h with
  | start => exact numbered
  | request _ r ih => exact perform_runsNumbered ih r
  | meanwhile _ _ board ih => exact board.runsNumbered ih

theorem indexed (h : s₀.LeadsTo s) (indexed : s₀.catalog.Indexed) : s.catalog.Indexed := by
  induction h with
  | start => exact indexed
  | request _ r ih => exact perform_indexed ih r
  | meanwhile _ catalog _ ih => exact catalog ▸ ih

/-- A program makes nothing but requests. -/
theorem run {α : Type} (h : s₀.LeadsTo s) (p : Program α) : s₀.LeadsTo (p.run s).2 :=
  (Program.asks_any p).keeps s₀.LeadsTo (fun r _ _ before => before.request r) h

/-- Neither do operations. -/
theorem applyAll (h : s₀.LeadsTo s) (operations : List Operation) :
    s₀.LeadsTo (operations.foldl (Operation.apply setup) s) :=
  List.foldlRecOn (motive := s₀.LeadsTo) _ _ h fun _ before operation _ =>
    operation.apply_keeps s₀.LeadsTo (fun r _ before => before.request r) before

end State.LeadsTo

/-! ## Keys that are returned -/

/-- A run that is asked for gets a number that was not given out before. -/
theorem trigger_follows_numbers (setup : Setup) (id : RuleId) (s : State) :
    (trigger setup id).outcome.Follows (.among State.LeadsTo) s fun result s' =>
      ∀ key, result = .ok key → ∃ number, key = .manual id number ∧
        s.board.lastSequence < number ∧ number ≤ s'.board.lastSequence := by
  unfold trigger
  refine Action.outcome_follows_among_bind fun s₁ before₁ => ?_
  split
  · exact (Program.follows_pure _).mpr nofun
  split
  · exact (Program.follows_pure _).mpr nofun
  refine Action.outcome_follows_among_bind fun s₂ before₂ => ?_
  refine Action.outcome_follows_among_bind fun s₃ before₃ => (Program.follows_pure _).mpr ?_
  intro key returned
  obtain rfl := Except.ok.inj returned
  have before := Nat.le_trans before₁.lastSequence_le before₂.lastSequence_le
  exact ⟨s₂.board.lastSequence + 1, rfl, Nat.lt_succ_of_le before, before₃.lastSequence_le⟩

/-- A key that was returned is not returned again, whatever else goes on. -/
theorem trigger_keys_differ
    (first : (trigger setup id).outcome.EndsAmong State.LeadsTo s (.ok key) s₁)
    (later : s₁.LeadsTo s₂)
    (second : (trigger setup' id').outcome.EndsAmong State.LeadsTo s₂ (.ok key') s₃) :
    key ≠ key' := by
  obtain ⟨x, numbered, ends⟩ := (trigger_follows_numbers setup id s).of_endsAmong first
  obtain ⟨x', numbered', -⟩ := (trigger_follows_numbers setup' id' s₂).of_endsAmong second
  obtain ⟨number, rfl, -, given⟩ := numbered key rfl
  obtain ⟨number', rfl, fresh, -⟩ := numbered' key' rfl
  have before := Nat.le_trans ends.lastSequence_le later.lastSequence_le
  have earlier : number < number' := Nat.lt_of_le_of_lt (Nat.le_trans given before) fresh
  intro same
  obtain ⟨-, rfl⟩ := JobKey.manual.inj same
  exact Nat.lt_irrefl _ earlier

end Cohort
