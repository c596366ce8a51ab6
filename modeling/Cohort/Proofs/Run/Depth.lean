import Cohort.Materialize
import Cohort.Proofs.Lineage.Dependency

/-!
# Runs are not deeper than there are rules

The number of levels that a run can have is bounded beforehand. It need not be: the rules whose runs
are in progress at the same time are all different, so that a run that was allowed to go deeper
would be the same program, whatever the rows say and with cycles or without.

## Main results

* `runRule_deep` — depth beyond the number of rules makes no difference
-/

namespace Cohort

variable {setup : Setup} {nested nested' : NestedRun} {running : List RuleId}

/-- Operands are refreshed by the runs within the runs in progress, and by no others. -/
theorem refreshDependency_congr (same : nested running = nested' running) (id : RuleId) :
    refreshDependency nested running id = refreshDependency nested' running id := by
  have locked : refreshLocked nested running id = refreshLocked nested' running id := by
    funext dependency seen refreshed
    rw [refreshLocked, same, refreshLocked]
  funext now refreshed dependency
  rw [refreshDependency, locked, refreshDependency]

theorem materialize_congr (same : nested running = nested' running) :
    materialize setup nested running = materialize setup nested' running := by
  have refreshes : refreshDependencies nested running = refreshDependencies nested' running := by
    funext id dependencies refreshed
    rw [refreshDependencies, refreshDependency_congr same, refreshDependencies]
  have computes : compute setup nested running = compute setup nested' running := by
    funext refreshed e started
    rw [compute, refreshes, compute]
  funext refreshed id
  rw [materialize, computes, materialize]

/-- A run whose own run is not in progress goes on with it in progress. -/
theorem runWith_congr (same : ∀ id ∉ running, nested (id :: running) = nested' (id :: running)) :
    runWith setup nested running = runWith setup nested' running := by
  funext refreshed id
  unfold runWith
  by_cases member : id ∈ running
  · rw [if_pos (by simpa using member), if_pos (by simpa using member)]
  · rw [materialize_congr (same id member)]

/-- Where so many runs are in progress that the depths leave room for all rules that are left, more
depth makes no difference. -/
theorem runRule_depth (setup : Setup) {depth depth' : Nat} {running : List RuleId}
    (different : running.Nodup) (enough : RuleId.count < running.length + depth)
    (enough' : RuleId.count < running.length + depth') :
    runRule setup depth running = runRule setup depth' running := by
  have bound := RuleId.length_le_count different
  induction depth generalizing running depth' with
  -- There are not so many rules.
  | zero => omega
  | succ depth ih =>
    obtain _ | depth' := depth'
    · omega
    refine runWith_congr fun id not_running => ?_
    have different' := List.nodup_cons.mpr ⟨not_running, different⟩
    have length : (id :: running).length = running.length + 1 := List.length_cons
    exact ih different' (by omega) (by omega) (RuleId.length_le_count different')

/-- A run by itself that could go deeper than there are rules would be the same. -/
theorem runRule_deep (setup : Setup) {depth : Nat} (deep : RuleId.count < depth) :
    runRule setup depth [] = runRule setup (RuleId.count + 1) [] :=
  runRule_depth setup List.nodup_nil (by simpa using deep) (by simp)

end Cohort
