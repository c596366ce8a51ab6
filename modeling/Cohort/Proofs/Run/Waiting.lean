import Cohort.Manager
import Cohort.Proofs.Manager.Mutations
import Cohort.Proofs.Program.Waiting
import Cohort.Proofs.Run.Requests

/-!
# Runs take locks in order

A run holds the lock of its own rule and those of the operands whose runs are in progress. It asks
for the lock of an operand only if that operand's run is not in progress, and all rules that it
holds depend on the operand. So runs keep to the discipline of locks and slots, and so do passes,
manual runs and deletions, over every catalogue, with or without cycles.

## Main definitions

* `Share.Stacked` — the runs that are underway within each other, and their locks
* `NestedRun.Disciplined` — a nested run keeps to the discipline

## Main results

* `runRule_disciplined` — a run of any depth keeps to the discipline
* `dispatch_follows`, `manualRun_follows`, `recurringRun_follows`, `runPass_follows`,
  `deleteRule_follows` — what begins with nothing keeps to it and ends with nothing
* `runPass_neverWaits`, `execute_neverWaits` — a pass or a run that goes on alone never waits
-/

namespace Cohort

open Cohort.Action

variable {setup : Setup} {nested : NestedRun} {running refreshed : List RuleId} {id : RuleId}
  {dependsOn : RuleId → RuleId → Prop} {slots : Nat} {h : Share}

theorem Request.isAside_of_ofReading {r : Request} (h : r.ofReading = true) : r.isAside = true := by
  cases r <;> simp_all [ofReading, isAside]

theorem Request.isAside_of_ofBooks {r : Request} (h : r.ofBooks = true) : r.isAside = true := by
  cases r <;> simp_all [ofBooks, isAside]

theorem Request.isAside_of_ofSchedule {r : Request} (h : r.ofSchedule = true) :
    r.isAside = true := by
  cases r <;> simp_all [ofSchedule, isAside]

/-! ## Nested runs -/

/-- The rules whose runs are underway within each other and the rules that are locked. All of these
depend on the last rule. -/
structure Share.Stacked (dependsOn : RuleId → RuleId → Prop) (h : Share)
    (running locked : List RuleId) (id : RuleId) : Prop where
  underway : h.underway = running
  locks : ∀ l, l ∈ h.locks ↔ l ∈ locked
  reach : ∀ l ∈ h.locks, Relation.ReflTransGen dependsOn l id

/-- Under the locks of the runs in progress and its own, a nested run gives back what it takes. -/
def NestedRun.Disciplined (dependsOn : RuleId → RuleId → Prop) (slots : Nat) (nested : NestedRun) :
    Prop :=
  ∀ (running refreshed : List RuleId) (id : RuleId) (h : Share),
    h.Stacked dependsOn running (id :: running) id →
      (nested running refreshed id).GivesBack dependsOn slots h

theorem refreshLocked_follows {dependency : RuleId} {seen : Entry}
    (disciplined : nested.Disciplined dependsOn slots)
    (stacked : h.Stacked dependsOn running (dependency :: running) dependency) :
    (refreshLocked nested running id dependency seen refreshed).GivesBack dependsOn slots h := by
  refine follows_aside rfl fun row => ?_
  split
  · exact (follows_pure _).mpr rfl
  · split
    · exact (follows_pure _).mpr rfl
    · refine (disciplined running refreshed dependency h stacked).outcome_bind fun outcome => ?_
      cases outcome with
      | ok v => exact (follows_pure _).mpr rfl
      | error cause => exact (follows_throw _).mpr rfl

/-- The lock of a dependency is asked for only if its run is not in progress. -/
theorem refreshDependency_follows {owner dependency : RuleId} {now : Instant}
    (disciplined : nested.Disciplined dependsOn slots)
    (stacked : h.Stacked dependsOn running running id) (depends : dependsOn id dependency) :
    (refreshDependency nested running owner now refreshed dependency).GivesBack
      dependsOn slots h := by
  obtain ⟨underway, locks, reach⟩ := stacked
  have reaches : ∀ l ∈ h.locks, Relation.TransGen dependsOn l dependency :=
    fun l hl => .tail' (reach l hl) depends
  unfold refreshDependency
  split
  · exact (follows_pure _).mpr rfl
  refine follows_aside rfl fun row => ?_
  split
  · exact (follows_pure _).mpr rfl
  split
  · exact (follows_pure _).mpr rfl
  by_cases member : dependency ∈ running
  · rw [if_pos (by simpa using member)]
    refine refreshLocked_follows disciplined ⟨underway, fun l => ?_, fun l hl => ?_⟩
    · rw [locks, List.mem_cons]
      exact ⟨.inr, fun either => either.elim (fun same => same ▸ member) fun hl => hl⟩
    · exact (reaches l hl).to_reflTransGen
  · rw [if_neg (by simpa using member)]
    -- It is not underway, so that it is not among the locks that are held.
    have free : dependency ∉ h.locks := fun hd => member ((locks dependency).mp hd)
    refine follows_request ⟨free, reaches⟩ fun _ => ?_
    -- Under its lock, the dependency is the last of the rules that are locked.
    have nested_stacked : (h.after (.lockNested dependency)).Stacked dependsOn running
        (dependency :: running) dependency := by
      refine ⟨underway, fun l => ?_, fun l hl => ?_⟩
      · exact (List.mem_cons.trans (or_congr_right (locks l))).trans List.mem_cons.symm
      · rcases List.mem_cons.mp hl with rfl | hl
        · exact .refl
        · exact (reaches l hl).to_reflTransGen
    refine (refreshLocked_follows disciplined nested_stacked).outcome_bind fun outcome => ?_
    have not_underway : dependency ∉ h.underway := underway ▸ member
    refine follows_request ⟨List.mem_cons_self, not_underway⟩ fun _ => ?_
    rw [Share.after_lockNested_unlock, follows_check, Program.follows_pure]
    cases outcome <;> rfl

theorem compute_follows (disciplined : nested.Disciplined dependsOn slots)
    (stacked : h.Stacked dependsOn running running id) {e : Entry}
    (depends : ∀ p ∈ e.parents, dependsOn id p) (started : Instant) :
    (compute setup nested running refreshed e started).GivesBack dependsOn slots h := by
  have aside : ∀ r : Request, r.ofReading = true → r.isAside = true :=
    fun _ => Request.isAside_of_ofReading
  unfold compute
  split
  · exact (computeBase_asks aside _).givesBack.bind fun rows => (follows_pure _).mpr rfl
  · next dependencies operation residual source =>
    have composite : ∀ refreshed : List RuleId,
        (computeComposite e.id dependencies operation residual >>= fun result =>
          pure (result.1, result.2, refreshed) :
            Action (Dataset × Instant × List RuleId)).GivesBack dependsOn slots h :=
      fun refreshed => (computeComposite_asks aside ..).givesBack.bind fun result =>
        (follows_pure _).mpr rfl
    have parents : e.parents = dependencies := by rw [Entry.parents, source]; rfl
    split
    · refine Action.GivesBack.bind (follows_aside rfl fun now => ?_) fun _ => composite _
      refine follows_foldlM (· = h) dependencies ?_ refreshed rfl
      rintro refreshed dependency listed _ rfl
      exact refreshDependency_follows disciplined stacked (depends _ (parents ▸ listed))
    · exact composite _

theorem materialize_follows (disciplined : nested.Disciplined dependsOn slots)
    (stacked : h.Stacked dependsOn running running id) :
    (materialize setup nested running refreshed id).GivesBack dependsOn slots h := by
  refine follows_call_bind.mpr ⟨trivial, ?_⟩
  -- The row says which rules the run may ask for.
  rintro row _ ⟨rfl, depends⟩
  split
  · exact (follows_throw _).mpr rfl
  · refine follows_aside rfl fun started => ?_
    refine (compute_follows disciplined stacked (depends _ rfl) started).bind fun computed => ?_
    refine (orFail_asks (Program.asks_call (by rfl))).givesBack.bind fun count => ?_
    refine follows_aside rfl fun finished => ?_
    exact (writeMetadata_asks (by rfl) _).givesBack.bind fun _ => (follows_pure _).mpr rfl

/-- The events of a run frame it, and no run begins within itself. -/
theorem runWith_disciplined (disciplined : nested.Disciplined dependsOn slots) :
    (runWith setup nested).Disciplined dependsOn slots := by
  rintro running refreshed id h ⟨underway, locks, reach⟩
  unfold runWith
  split
  · exact (follows_throw _).mpr rfl
  · next not_running =>
    have locked : id ∈ h.locks := (locks id).mpr List.mem_cons_self
    have fresh : id ∉ h.underway := fun hid => not_running (by simpa [underway] using hid)
    refine follows_request (fun _ => ⟨locked, fresh⟩) fun _ => ?_
    have stacked : (h.after (.emit { kind := .runStarted, rule := id })).Stacked dependsOn
        (id :: running) (id :: running) id := ⟨congrArg (id :: ·) underway, locks, reach⟩
    refine (materialize_follows disciplined stacked).outcome_bind fun outcome => ?_
    have ends : (Event.ofRun id (outcome.map (·.1))).kind ≠ .runStarted := by
      unfold Event.ofRun
      split <;> simp
    refine follows_request (fun started => absurd started ends) fun _ => ?_
    rw [Share.after_runStarted_ofRun, follows_bind, follows_check, Program.follows_pure]
    cases outcome with
    | ok v => exact (follows_pure _).mpr rfl
    | error e => rfl

/-- However deep a run goes, it keeps to the discipline. -/
theorem runRule_disciplined (depth : Nat) : (runRule setup depth).Disciplined dependsOn slots := by
  induction depth with
  | zero => exact fun _ _ _ _ _ => (follows_throw _).mpr rfl
  | succ depth ih => exact runWith_disciplined ih

/-- Under the lock of its rule, a run by itself gives back what it takes. -/
theorem execute_givesBack (id : RuleId) :
    (execute setup id).GivesBack dependsOn slots ⟨slots, [id], []⟩ := by
  refine (runRule_disciplined _ [] [] id _ ⟨rfl, fun _ => Iff.rfl, ?_⟩).bind
    fun result => (follows_pure _).mpr rfl
  rintro l hl
  obtain rfl := List.mem_singleton.mp hl
  exact .refl

/-! ## What begins with nothing -/

/-- A run by itself takes a slot and a lock, and gives both back. -/
theorem dispatch_follows (id : RuleId) (generation : Option Nat) :
    (dispatch setup id generation).Follows (.locking dependsOn 1) {} fun _ h' => h' = {} := by
  have executes : (execute setup id).GivesBack dependsOn 1 ⟨1, [id], []⟩ := execute_givesBack id
  have given_back : ∀ result, (giveBack id result).Follows (.locking dependsOn 1) ⟨1, [id], []⟩
      fun _ h' => h' = {} := by
    intro result
    refine Program.follows_request ⟨List.mem_singleton_self _, List.not_mem_nil⟩ fun _ => ?_
    have unlocked : (⟨1, [id], []⟩ : Share).after (.unlock id) = { slots := 1 } :=
      Share.after_lock_unlock { slots := 1 } id
    rw [unlocked]
    refine Program.follows_request Nat.one_pos fun _ => ?_
    refine Program.follows_request rfl fun _ => (Program.follows_pure _).mpr rfl
  have run : (executeLocked setup id).Follows (.locking dependsOn 1) ⟨1, [id], []⟩
      fun _ h' => h' = {} := by
    refine Program.follows_bind.mpr (Follows.outcome executes ?_ ?_)
    · rintro v _ rfl
      exact given_back _
    · rintro e _ rfl
      exact given_back _
  refine Program.follows_request rfl fun _ => ?_
  refine Program.follows_request rfl fun _ => ?_
  cases generation with
  | none => exact run
  | some generation => exact Program.follows_aside rfl fun _ => run

theorem manualRun_follows (run : ManualRun) :
    (manualRun setup run).Follows (.locking dependsOn 1) {} fun _ h' => h' = {} := by
  have close : (Program.call (.closeRun run.sequence)).Follows (.locking dependsOn 1) {}
      fun _ h' => h' = {} := (Program.asks_call (by rfl)).follows_aside
  refine (dispatch_follows run.rule none).bind ?_
  rintro result _ rfl
  split
  · refine Program.follows_aside rfl fun now => ?_
    refine Program.follows_aside rfl fun row => ?_
    exact Program.follows_aside rfl fun _ => close
  · exact close

theorem recurringRun_follows (id : RuleId) (generation : Nat) (timer : Instant) :
    (recurringRun setup id generation timer).Follows (.locking dependsOn 1) {}
      fun _ h' => h' = {} := by
  have aside : ∀ r : Request, r.isAside = true →
      (Program.call r).Follows (.locking dependsOn 1) {} fun _ h' => h' = {} :=
    fun r isAside => (Program.asks_call isAside).follows_aside
  refine Program.follows_aside rfl fun row => ?_
  cases row with
  | none => exact aside (.dropJob id generation) rfl
  | some e =>
    refine Program.follows_aside rfl fun now => ?_
    split
    · exact aside (.armJob id generation _) rfl
    · refine (dispatch_follows id _).bind ?_
      rintro result _ rfl
      refine (complete_asks setup (fun _ => Request.isAside_of_ofBooks) ..).follows_aside.bind ?_
      rintro next _ rfl
      cases next with
      | none => exact (Program.follows_pure _).mpr rfl
      | some next => exact aside (.armJob id generation next) rfl

theorem passOver_follows (began : Instant) (entries : List Entry) (report : PassReport) :
    (passOver setup began entries report).Follows (.locking dependsOn 1) {}
      fun _ h' => h' = {} := by
  induction entries generalizing report with
  | nil => exact (Program.follows_pure _).mpr rfl
  | cons e rest ih =>
    refine Program.follows_aside rfl fun generation => ?_
    refine (dispatch_follows e.id generation).bind ?_
    rintro result _ rfl
    refine (complete_asks setup (fun _ => Request.isAside_of_ofBooks) ..).follows_aside.bind ?_
    rintro next _ rfl
    cases next with
    | none => exact (Program.follows_pure _).mpr rfl
    | some next => exact ih _

theorem runPass_follows :
    (runPass setup).Follows (.locking dependsOn 1) {} fun _ h' => h' = {} :=
  Program.follows_aside rfl fun _ => Program.follows_aside rfl fun _ => passOver_follows _ _ _

/-- A deletion takes no slot. -/
theorem deleteRule_follows (id : RuleId) :
    (deleteRule setup id).GivesBack dependsOn 0 {} := by
  have scheduled : ∀ (setup : Setup) (rule : Rule) (h : Share),
      (schedule setup rule).GivesBack dependsOn 0 h :=
    fun _ rule _ => (schedule_asks (fun _ => Request.isAside_of_ofSchedule) rule).givesBack
  have dropped : ∀ current : Entry, (deleteLocked current).GivesBack dependsOn 0 ⟨0, [id], []⟩ := by
    intro current
    refine follows_aside rfl fun result => ?_
    cases result with
    | error cause => exact (follows_throw _).mpr rfl
    | ok _ => exact (asks_check (Program.asks_call (by rfl))).givesBack
  have unlocked : (⟨0, [id], []⟩ : Share).after (.unlock id) = {} :=
    Share.after_lock_unlock {} id
  have unlocks : (Protocol.locking dependsOn 0).Admits ⟨0, [id], []⟩ (.unlock id) :=
    ⟨List.mem_singleton_self _, List.not_mem_nil⟩
  refine follows_aside rfl fun rows => ?_
  split
  · exact (follows_throw _).mpr rfl
  · next current _ =>
    dsimp only
    split
    · exact (follows_throw _).mpr rfl
    refine follows_aside rfl fun _ => follows_request rfl fun _ => ?_
    refine (dropped current).outcome_bind fun outcome => ?_
    cases outcome with
    | error failure =>
      refine (scheduled setup.whileWaiting current.rule _).outcome_bind fun _ => ?_
      refine follows_request unlocks fun _ => ?_
      rw [unlocked]
      exact (follows_throw _).mpr rfl
    | ok removed =>
      refine follows_request nofun fun _ => ?_
      change Follows (.locking dependsOn 0) _ ⟨0, [id], []⟩ _ _
      refine follows_request unlocks fun _ => ?_
      rw [unlocked]
      exact (follows_pure _).mpr rfl

/-- A pass that goes on alone never waits. -/
theorem runPass_neverWaits {s : State} (unlocked : s.locks = []) (free : 0 < s.slots) :
    (runPass setup).NeverWaits s :=
  runPass_follows.neverWaits (unlocked ▸ List.Sublist.refl _) free

/-- A run that goes on alone never waits where no lock but that of its own rule is held. -/
theorem execute_neverWaits {s : State} (own : s.locks.Sublist [id]) :
    (execute setup id).outcome.NeverWaits s := by
  have follows : (execute setup id).outcome.Follows (.locking (fun _ _ => True) 1) ⟨1, [id], []⟩
      fun _ h' => h' = ⟨1, [id], []⟩ :=
    (execute_givesBack id).outcome (fun _ _ same => same) fun _ _ same => same
  exact follows.neverWaits own (Nat.succ_pos _)

end Cohort
