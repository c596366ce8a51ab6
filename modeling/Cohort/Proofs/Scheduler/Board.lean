import Cohort.Job

/-!
# The job board

The board keeps one recurring job for a rule at most. A job that is put in place gets the next
generation, and no change of a job gives it another one. So no two jobs ever share a generation,
and whoever remembers the generation of a job can tell whether the job is still the one it was.

## Main definitions

* `JobBoard.Numbered` — one job for a rule, and one generation for a job

## Main results

* `JobBoard.job?_install`, `JobBoard.job?_remove`, `JobBoard.job?_modify` — the job of a rule after
  a change of the board
* `JobBoard.Numbered.install`, `JobBoard.Numbered.remove`, `JobBoard.Numbered.modify`,
  `JobBoard.Numbered.drop` — what a change makes of the numbers
-/

namespace Cohort.JobBoard

variable {b : JobBoard} {rule id : RuleId} {generation : Nat} {job : Job} {f : Job → Job}

/-! ## The job of a rule -/

theorem job?_install (b : JobBoard) (rule : RuleId) (next : Instant) (timer : Option Instant)
    (id : RuleId) : (b.install rule next timer).job? id =
      if rule = id then some ⟨b.lastGeneration + 1, .scheduled, next, timer⟩ else b.job? id :=
  Assoc.get?_put ..

theorem job?_install_of_ne (b : JobBoard) (other : rule ≠ id) (next : Instant)
    (timer : Option Instant) : (b.install rule next timer).job? id = b.job? id := by
  rw [job?_install, if_neg other]

theorem job?_remove (b : JobBoard) (rule id : RuleId) :
    (b.remove rule).job? id = if rule = id then none else b.job? id := Assoc.get?_erase ..

theorem job?_modify (b : JobBoard) (rule : RuleId) (generation : Nat) (f : Job → Job)
    (id : RuleId) : (b.modify rule generation f).job? id =
      if rule = id then
        (b.job? id).map fun job => if job.generation = generation then f job else job
      else b.job? id := by
  unfold modify
  by_cases same : rule = id
  · subst same
    rw [if_pos rfl]
    cases found : b.job? rule with
    | none => exact found
    | some job =>
      dsimp only [Option.map_some]
      by_cases current : job.generation = generation
      · rw [if_pos current, if_pos current, job?, Assoc.get?_put, if_pos rfl]
      · rw [if_neg current, if_neg current, found]
  · rw [if_neg same]
    split
    · split
      · rw [job?, Assoc.get?_put, if_neg same]
        rfl
      · rfl
    · rfl

/-- The job that is still of this generation is changed. -/
theorem job?_modify_self (found : b.job? id = some job) (f : Job → Job) :
    (b.modify id job.generation f).job? id = some (f job) := by
  simp [job?_modify, found]

theorem job?_modify_eq_none (h : b.job? id = none) :
    (b.modify rule generation f).job? id = none := by
  simp [job?_modify, h]

theorem job?_drop (b : JobBoard) (rule : RuleId) (generation : Nat) (id : RuleId) :
    (b.drop rule generation).job? id =
      if rule = id ∧ b.isCurrent rule generation = true then none else b.job? id := by
  unfold drop
  by_cases current : b.isCurrent rule generation = true
  · rw [if_pos current, job?, Assoc.get?_erase]
    simp [current, job?]
  · rw [if_neg current]
    simp [current]

theorem job?_drop_eq_none (h : b.job? id = none) : (b.drop rule generation).job? id = none := by
  simp [job?_drop, h]

theorem lastGeneration_modify (b : JobBoard) (rule : RuleId) (generation : Nat) (f : Job → Job) :
    (b.modify rule generation f).lastGeneration = b.lastGeneration := by
  unfold modify
  split
  · split <;> rfl
  · rfl

theorem generation_move (target : JobState) (job : Job) :
    (move target job).generation = job.generation := by
  unfold move
  split <;> rfl

/-! ## Numbers -/

/-- No rule has two jobs, the jobs have different generations, and none of these is later than the
last one that was given out. -/
structure Numbered (b : JobBoard) : Prop where
  keyed : (b.jobs.map Prod.fst).Nodup
  given : ∀ id job, b.job? id = some job → job.generation ≤ b.lastGeneration
  distinct : ∀ id id' job job', b.job? id = some job → b.job? id' = some job' →
    job.generation = job'.generation → id = id'

theorem numbered_of_jobs_eq_nil (none_left : b.jobs = []) : b.Numbered where
  keyed := by
    rw [none_left]
    exact List.nodup_nil
  given id job found := by
    rw [job?, none_left] at found
    cases found
  distinct id a job other found := by
    rw [job?, none_left] at found
    cases found

namespace Numbered

variable {b' : JobBoard}

/-- Jobs keep their generations or go. -/
theorem of_generations (h : b.Numbered) (keyed : (b'.jobs.map Prod.fst).Nodup)
    (last : b'.lastGeneration = b.lastGeneration)
    (kept : ∀ id job', b'.job? id = some job' →
      ∃ job, b.job? id = some job ∧ job.generation = job'.generation) : b'.Numbered where
  keyed := keyed
  given id job' found := by
    obtain ⟨job, was, same⟩ := kept id job' found
    rw [last, ← same]
    exact h.given id job was
  distinct id a job' other' found found' same := by
    obtain ⟨job, was, kept_generation⟩ := kept id job' found
    obtain ⟨other, was', kept_generation'⟩ := kept a other' found'
    exact h.distinct id a job other was was' (by rw [kept_generation, same, kept_generation'])

/-- A new job has a generation that no job has had before. -/
theorem install (h : b.Numbered) (rule : RuleId) (next : Instant) (timer : Option Instant) :
    (b.install rule next timer).Numbered where
  keyed := Assoc.nodup_keys_put h.keyed
  given id job found := by
    rw [job?_install] at found
    split at found
    · obtain rfl := Option.some.inj found
      exact Nat.le_refl _
    · exact Nat.le_succ_of_le (h.given id job found)
  distinct id a job other found found' same := by
    rw [job?_install] at found found'
    split at found <;> split at found'
    · next is_rule is_rule' => exact is_rule.symm.trans is_rule'
    · obtain rfl := Option.some.inj found
      exact absurd same (Nat.ne_of_gt (Nat.lt_succ_of_le (h.given a other found')))
    · obtain rfl := Option.some.inj found'
      exact absurd same (Nat.ne_of_lt (Nat.lt_succ_of_le (h.given id job found)))
    · exact h.distinct id a job other found found' same

theorem remove (h : b.Numbered) (rule : RuleId) : (b.remove rule).Numbered := by
  refine h.of_generations (Assoc.nodup_keys_erase h.keyed) rfl fun id job found => ?_
  rw [job?_remove] at found
  split at found
  · cases found
  · exact ⟨job, found, rfl⟩

theorem modify (h : b.Numbered) (rule : RuleId) (generation : Nat)
    (keeps : ∀ job, (f job).generation = job.generation) :
    (b.modify rule generation f).Numbered := by
  have keyed : ((b.modify rule generation f).jobs.map Prod.fst).Nodup := by
    unfold JobBoard.modify
    split
    · split
      · exact Assoc.nodup_keys_put h.keyed
      · exact h.keyed
    · exact h.keyed
  refine h.of_generations keyed (lastGeneration_modify ..) fun id job' found => ?_
  rw [job?_modify] at found
  split at found
  · obtain ⟨job, was, rfl⟩ := Option.map_eq_some_iff.mp found
    refine ⟨job, was, ?_⟩
    split
    · exact (keeps job).symm
    · rfl
  · exact ⟨job', found, rfl⟩

theorem drop (h : b.Numbered) (rule : RuleId) (generation : Nat) :
    (b.drop rule generation).Numbered := by
  unfold JobBoard.drop
  split
  · refine h.of_generations (Assoc.nodup_keys_erase h.keyed) rfl fun id job found => ?_
    rw [job?, Assoc.get?_erase] at found
    split at found
    · cases found
    · exact ⟨job, found, rfl⟩
  · exact h

/-- Manual runs do not matter. -/
theorem of_jobs_eq (h : b.Numbered) (jobs : b'.jobs = b.jobs)
    (last : b'.lastGeneration = b.lastGeneration) : b'.Numbered := by
  refine h.of_generations (jobs ▸ h.keyed) last fun id job found => ⟨job, ?_, rfl⟩
  rwa [job?, ← jobs]

end Numbered

end Cohort.JobBoard
