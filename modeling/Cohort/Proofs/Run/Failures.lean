import Cohort.Materialize
import Cohort.Proofs.Program.Failures

/-!
# What runs fail with

While the rows of a rule are computed, every failure names this rule: a query fails, or the table of
a dependency cannot be loaded, or the run of a dependency fails. In none of these the table of the
rule has been written. Only writing down the metadata fails with the news that it has.

## Main definitions

* `Failure.OfComputing` — the failures of computing the rows of a rule

## Main results

* `compute_raises` — computing rows fails with these, whatever the runs of dependencies fail with
-/

namespace Cohort

/-- The failure tells why the rows of the rule could not be computed. -/
inductive Failure.OfComputing (id : RuleId) : Failure → Prop
  | execution (fault : RunFault) : OfComputing id (.execution id fault)
  | load (dependency : RuleId) (fault : LoadFault) :
      OfComputing id (.dependencyLoad id dependency fault)
  | refresh (dependency : RuleId) (cause : Failure) :
      OfComputing id (.dependencyRefresh id dependency cause)

theorem Failure.OfComputing.not_partial {id : RuleId} {failure : Failure}
    (h : failure.OfComputing id) : failure.isPartial = false := by
  cases h <;> rfl

open Cohort.Action

variable {setup : Setup} {nested : NestedRun} {id : RuleId}

theorem orFail_raises {α : Type} (p : Program (Except EngineFailure α)) :
    (orFail id p).Raises (Failure.OfComputing id) := by
  refine raises_check.mpr (Program.returns_bind.mpr (p.returns_any.mono fun result _ => ?_))
  refine (Program.returns_pure _).mpr ?_
  cases result with
  | ok v => exact nofun
  | error cause =>
    rintro _ same
    obtain rfl := Except.error.inj same
    exact .execution (.engine cause)

theorem computeBase_raises (q : Query) : (computeBase id q).Raises (Failure.OfComputing id) := by
  refine raises_of_bind fun result => ?_
  split
  · exact raises_pure _
  · exact raises_pure _
  · exact raises_pure _
  · exact raises_throw.mpr (.execution _)

theorem loadDependency_raises (dependency : RuleId) :
    (loadDependency id dependency).Raises (Failure.OfComputing id) := by
  refine raises_of_bind fun row => ?_
  split
  · exact raises_throw.mpr (.load ..)
  · split
    · exact raises_throw.mpr (.load ..)
    · refine raises_of_bind fun rows => ?_
      split
      · exact raises_throw.mpr (.load ..)
      · exact raises_pure _

theorem computeComposite_raises (dependencies : List RuleId) (operation : SetOperation)
    (residual : Option Query) :
    (computeComposite id dependencies operation residual).Raises (Failure.OfComputing id) := by
  have loads : (loadDependencies id dependencies).Raises (Failure.OfComputing id) := by
    refine raises_bind (raises_mapM _ loadDependency_raises) fun loaded => ?_
    split
    · exact raises_throw.mpr (.execution _)
    · exact raises_pure _
  refine raises_bind loads fun loaded => raises_bind (orFail_raises _) fun combined => ?_
  split
  · exact raises_pure _
  · exact raises_bind (orFail_raises _) fun _ => raises_pure _

/-- Whatever the run of a dependency fails with, the failure is told as that of the dependency. -/
theorem refreshDependency_raises (running : List RuleId) (now : Instant) (refreshed : List RuleId)
    (dependency : RuleId) :
    (refreshDependency nested running id now refreshed dependency).Raises
      (Failure.OfComputing id) := by
  have locked : ∀ seen : Entry, (refreshLocked nested running id dependency seen refreshed).Raises
      (Failure.OfComputing id) := by
    intro seen
    refine raises_of_bind fun row => ?_
    split
    · exact raises_pure _
    split
    · exact raises_pure _
    refine raises_of_bind fun outcome => ?_
    cases outcome with
    | ok v => exact raises_pure _
    | error cause => exact raises_throw.mpr (.refresh dependency cause)
  unfold refreshDependency
  split
  · exact raises_pure _
  refine raises_of_bind fun row => ?_
  split
  · exact raises_pure _
  split
  · exact raises_pure _
  next seen _ =>
  split
  · exact locked seen
  -- Under a lock, the outcome is passed on after the lock has been given back.
  · refine raises_of_bind fun _ =>
      raises_outcome_bind (locked seen) (fun _ => ?_) fun cause told => ?_
    · exact raises_of_bind fun _ => raises_pure _
    · exact raises_of_bind fun _ => raises_throw.mpr told

/-- The failure of a computation names the rule whose rows are computed. -/
theorem compute_raises (running refreshed : List RuleId) (e : Entry) (started : Instant) :
    (compute setup nested running refreshed e started).Raises (Failure.OfComputing e.id) := by
  unfold compute
  split
  · exact raises_bind (computeBase_raises _) fun _ => raises_pure _
  · have refreshes : ∀ dependencies, (refreshDependencies nested running e.id dependencies
        refreshed).Raises (Failure.OfComputing e.id) := fun dependencies =>
      raises_of_bind fun now =>
        raises_foldlM dependencies refreshed (refreshDependency_raises running now)
    have composite : ∀ dependencies operation residual (refreshed : List RuleId),
        (computeComposite e.id dependencies operation residual >>= fun result =>
          pure (result.1, result.2, refreshed) :
            Action (Dataset × Instant × List RuleId)).Raises (Failure.OfComputing e.id) :=
      fun _ _ _ _ => raises_bind (computeComposite_raises ..) fun _ => raises_pure _
    split
    · exact raises_bind (refreshes _) fun _ => composite ..
    · exact composite ..

end Cohort
