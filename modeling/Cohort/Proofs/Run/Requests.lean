import Cohort.Dispatch
import Cohort.Proofs.Program.Requests

/-!
# The requests of a run

To compute its rows, a run reads rows and tables and makes queries. Only then it writes one table
and its metadata. This module says so for each part of a run, so that whatever these requests
leave alone a run leaves alone.

## Main definitions

* `Request.ofReading` — what is asked for while rows are computed
* `Request.ofRun` — what is asked for by a run that has its slot and its lock
* `Request.ofDispatch` — what is asked for by a run that takes both itself
* `Request.ofBooks` — what is asked for when the times of a run are written down
* `executeLocked`, `giveBack` — the part of a run that holds the lock, and the end of it
-/

namespace Cohort

/-! ## Parts of a run -/

/-- Gives back the lock and the slot of a run that has ended with this result. -/
def giveBack (id : RuleId) (result : Except Failure Nat) : Program (Except Failure Nat) := do
  Program.call (.unlock id)
  Program.call .freeSlot
  Program.call .join
  return result

/-- The part of a run that holds the lock. -/
def executeLocked (setup : Setup) (id : RuleId) : Program (Except Failure Nat) :=
  (execute setup id).outcome >>= giveBack id

/-! ## What is asked for -/

/-- What is asked for while the rows of a segment are computed. -/
def Request.ofReading : Request → Bool
  | .getRow _ | .now | .beginQuery | .endQuery _ | .readTable _ => true
  | _ => false

/-- What is asked for by a run that has its slot and its lock. Its dependencies are locked and
refreshed from within. -/
def Request.ofRun : Request → Bool
  | .writeTable .. | .recordRefresh .. | .emit _ | .lockNested _ | .unlock _ => true
  | r => r.ofReading

/-- What is asked for by a run that takes its slot and its lock, and gives them back. -/
def Request.ofDispatch : Request → Bool
  | .takeSlot | .lock _ | .fireJob .. | .freeSlot | .join => true
  | r => r.ofRun

/-- What is asked for when the times of a run are written down. -/
def Request.ofBooks : Request → Bool
  | .now | .recordRun .. | .finishJob .. => true
  | _ => false

theorem Request.ofRun_of_ofReading {r : Request} (h : r.ofReading = true) : r.ofRun = true := by
  cases r <;> simp_all [ofReading, ofRun]

theorem Request.ofDispatch_of_ofRun {r : Request} (h : r.ofRun = true) : r.ofDispatch = true := by
  cases r <;> simp_all [ofRun, ofReading, ofDispatch]

theorem Request.ofTask_of_ofDispatch {r : Request} (h : r.ofDispatch = true) :
    r.ofTask = true := by
  cases r <;> simp_all [ofDispatch, ofRun, ofReading, ofTask]

theorem Request.ofTask_of_ofBooks {r : Request} (h : r.ofBooks = true) : r.ofTask = true := by
  cases r <;> simp_all [ofBooks, ofTask]

open Cohort.Action

variable {id : RuleId} {P : Request → Prop} (made : ∀ r : Request, r.ofReading = true → P r)

include made

theorem runQuery_asks (q : Query) : (runQuery q).Asks P :=
  Program.asks_bind (Program.asks_call (made _ rfl)) fun _ => Program.asks_call (made _ rfl)

omit made in
theorem orFail_asks {α : Type} {p : Program (Except EngineFailure α)} (h : p.Asks P) :
    (orFail id p).Asks P :=
  asks_check (Program.asks_bind h fun _ => Program.asks_pure _)

theorem computeBase_asks (q : Query) : (computeBase id q).Asks P := by
  refine asks_bind (asks_of (runQuery_asks made q)) fun result => ?_
  split
  · exact asks_pure _
  · exact asks_pure _
  · exact asks_pure _
  · exact asks_throw _

theorem loadDependency_asks (dependency : RuleId) : (loadDependency id dependency).Asks P := by
  refine asks_bind (asks_call (made _ rfl)) fun row => ?_
  split
  · exact asks_throw _
  · split
    · exact asks_throw _
    · refine asks_bind (asks_call (made _ rfl)) fun rows => ?_
      split
      · exact asks_throw _
      · exact asks_pure _

theorem loadDependencies_asks (dependencies : List RuleId) :
    (loadDependencies id dependencies).Asks P := by
  refine asks_bind (asks_mapM (loadDependency_asks made) dependencies) fun loaded => ?_
  split
  · exact asks_throw _
  · exact asks_pure _

theorem computeComposite_asks (dependencies : List RuleId) (operation : SetOperation)
    (residual : Option Query) :
    (computeComposite id dependencies operation residual).Asks P := by
  refine asks_bind (loadDependencies_asks made dependencies) fun loaded => ?_
  refine asks_bind (orFail_asks (Program.asks_pure _)) fun combined => ?_
  split
  · exact asks_pure _
  · exact asks_bind (orFail_asks (runQuery_asks made _)) fun _ => asks_pure _

omit made

theorem writeMetadata_asks {refresh : Refresh} (made : P (.recordRefresh id refresh)) (more : Nat) :
    (writeMetadata id refresh more).Asks P := by
  induction more with
  | zero =>
    rw [writeMetadata]
    refine asks_bind (asks_call made) fun result => ?_
    split
    · exact asks_pure _
    · exact asks_throw _
  | succ fewer ih =>
    rw [writeMetadata]
    refine asks_bind (asks_call made) fun result => ?_
    split
    · exact asks_pure _
    · exact ih

/-- The bookkeeping after a run asks for nothing else. -/
theorem complete_asks (setup : Setup) {P : Request → Prop}
    (made : ∀ r : Request, r.ofBooks = true → P r) (id : RuleId)
    (generation : Option Nat) (schedule : Schedule) (previous : Instant)
    (result : Except Failure Nat) :
    (complete setup id generation schedule previous result).Asks P := by
  refine Program.asks_bind (Program.asks_call (made _ rfl)) fun now => ?_
  cases dueAfter? setup.running schedule previous now result with
  | none => exact Program.asks_pure _
  | some next =>
    have record : (Program.call (.recordRun id now next)).Asks P := Program.asks_call (made _ rfl)
    cases generation with
    | none =>
      dsimp only
      split
      · exact Program.asks_bind record fun _ => Program.asks_pure _
      · exact Program.asks_pure _
    | some generation =>
      have finish : (Program.call (.finishJob id generation next) >>= fun _ =>
          pure (some next) : Program (Option Instant)).Asks P :=
        Program.asks_bind (Program.asks_call (made _ rfl)) fun _ => Program.asks_pure _
      dsimp only
      split
      · exact Program.asks_bind record fun _ => finish
      · exact finish

end Cohort
