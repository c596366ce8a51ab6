import Cohort.Proofs.Catalog.Soundness
import Cohort.Proofs.Run.Requests
import Cohort.Scheduler

/-!
# Runs keep definitions

Runs write down when they happened and how many rows they wrote. They add no rows to the
catalogue and remove none, and they leave the definitions of all rules as they are. This
follows from the requests that they can make, whatever the answers are and however deep
a run goes.

## Main results

* `State.perform_indexed` — rows stay stored under their own identifiers
* `Program.Asks.run_definitions` — what programs without other requests do to a catalogue
* `runRule_asks`, `runPass_asks`, `manualRun_asks` — all that runs ask for
-/

namespace Cohort

variable {setup : Setup} {id : RuleId}

/-- What a step that keeps definitions makes of a catalogue. -/
def Catalog.KeepsTo (c c' : Catalog) : Prop :=
  (c.Indexed → c'.Indexed) ∧ (c.Indexed → c.SameDefinitions c')

namespace Catalog

variable {c c' : Catalog}

theorem KeepsTo.refl (c : Catalog) : c.KeepsTo c := ⟨fun h => h, fun _ => .refl c⟩

theorem KeepsTo.of_rows_eq (hr : c'.rows = c.rows) : c.KeepsTo c' := by
  have same_get? : c'.get? = c.get? := by
    funext id
    rw [get?, get?, hr]
  exact ⟨fun h => ⟨hr ▸ h.keyed, hr ▸ h.distinct⟩, fun _ id => by rw [same_get?]⟩

theorem KeepsTo.trans {c₁ c₂ c₃ : Catalog} (h : c₁.KeepsTo c₂) (h' : c₂.KeepsTo c₃) :
    c₁.KeepsTo c₃ :=
  ⟨fun hc => h'.1 (h.1 hc), fun hc => (h.2 hc).trans (h'.2 (h.1 hc))⟩

/-- A change in place that leaves the definition of a row alone. -/
theorem keepsTo_modify (c : Catalog) (id : RuleId) {f : Entry → Entry}
    (same : ∀ e, (f e).definition = e.definition) : c.KeepsTo (c.modify id f).2 := by
  have same_id : ∀ e, (f e).id = e.id := fun e => by
    rw [← Entry.definition_id, same, Entry.definition_id]
  rcases c.modify_cases id f with ⟨unchanged, -⟩ | ⟨e, c', changed, found, hrows, -⟩
  · rw [unchanged]
    exact .refl c
  · rw [changed]
    have hr : c.Indexed → c'.rows = Assoc.put (f e).id (f e) c.rows := fun hc => by
      rw [same_id, hc.id_of_get? found, hrows]
    refine ⟨fun hc => hc.put (hr hc), fun hc a => ?_⟩
    rw [get?_of_put (hr hc), same_id, hc.id_of_get? found]
    split
    · next ha =>
      subst ha
      rw [found, Option.map_some, Option.map_some, same]
    · rfl

end Catalog

namespace State

theorem perform_definitions {r : Request} (h : r.leavesDefinitions = true) (s : State) :
    s.catalog.KeepsTo (s.perform r).2.catalog := by
  by_cases hr : r.leavesCatalog = true
  · rw [perform_catalog hr]
    exact .refl _
  · cases r <;> simp [Request.leavesDefinitions, Request.leavesCatalog] at h hr
    case recordRefresh id refresh =>
      simp only [perform, recordRefresh]
      split
      · exact .refl _
      · exact s.catalog.keepsTo_modify id fun _ => rfl
    case recordRun id last next =>
      simp only [perform, recordRun]
      split
      · exact .refl _
      · exact s.catalog.keepsTo_modify id fun _ => rfl

/-- Whatever is asked for, each row stays stored under its own identifier. -/
theorem perform_indexed {s : State} (h : s.catalog.Indexed) (r : Request) :
    (s.perform r).2.catalog.Indexed := by
  by_cases kept : r.leavesDefinitions = true
  · exact (s.perform_definitions kept).1 h
  · cases r <;> simp [Request.leavesDefinitions] at kept
    case allocateId => exact ⟨h.keyed, h.distinct⟩
    case insertRow e =>
      rcases s.catalog.insert_cases e with ⟨_, unchanged⟩ | ⟨c', inserted, -, -, -, rows, -⟩
      · simpa only [perform, unchanged] using h
      · simpa only [perform, inserted] using h.put (e := { e with version := 1 }) rows
    case replaceRow e expected =>
      simp only [perform, replaceRow]
      split
      · exact h
      · rcases s.catalog.replace_cases e expected
          with ⟨_, unchanged⟩ | ⟨_, c', replaced, -, -, -, -, rows, -⟩
        · simpa only [unchanged] using h
        · simpa only [replaced] using h.put (e := { e with version := expected + 1 }) rows
    case removeRow id =>
      simp only [perform, removeRow]
      split
      · exact h
      · rcases s.catalog.remove_cases id with ⟨_, unchanged⟩ | ⟨_, c', removed, -, rows, -⟩
        · simpa only [unchanged] using h
        · simpa only [removed] using h.erase rows

end State

/-- The program asks for nothing that a task does not ask for. -/
abbrev Program.IsTask {α : Type} (p : Program α) : Prop := p.Asks fun r => r.ofTask = true

/-- The program asks for nothing that a task does not ask for. -/
abbrev Action.IsTask {α : Type} (a : Action α) : Prop := a.Asks fun r => r.ofTask = true

theorem Program.Asks.run_definitions {α : Type} {p : Program α} (h : p.IsTask) (s : State) :
    s.catalog.KeepsTo (p.run s).2.catalog :=
  h.keeps (fun s' => s.catalog.KeepsTo s'.catalog)
    (fun _ s' hr hs =>
      hs.trans (s'.perform_definitions (Request.leavesDefinitions_of_ofTask hr))) (.refl _)

/-! ## Runs -/

open Cohort.Action

section Run

variable {P : Request → Prop} (made : ∀ r : Request, r.ofRun = true → P r)

section Nested

variable {nested : NestedRun}
  (nested_asks : ∀ running refreshed id, (nested running refreshed id).Asks P)

include made nested_asks

theorem refreshLocked_asks (running : List RuleId) (dependency : RuleId) (seen : Entry)
    (refreshed : List RuleId) :
    (refreshLocked nested running id dependency seen refreshed).Asks P := by
  refine asks_bind (asks_call (made _ rfl)) fun row => ?_
  split
  · exact asks_pure _
  · split
    · exact asks_pure _
    · refine asks_bind (asks_of (nested_asks ..).outcome) fun outcome => ?_
      split
      · exact asks_pure _
      · exact asks_throw _

theorem refreshDependency_asks (running : List RuleId) (now : Instant)
    (refreshed : List RuleId) (dependency : RuleId) :
    (refreshDependency nested running id now refreshed dependency).Asks P := by
  unfold refreshDependency
  split
  · exact asks_pure _
  · refine asks_bind (asks_call (made _ rfl)) fun row => ?_
    split
    · exact asks_pure _
    · split
      · exact asks_pure _
      · split
        · exact refreshLocked_asks made nested_asks ..
        · refine asks_bind (asks_call (made _ rfl)) fun _ => ?_
          refine asks_bind (asks_of (refreshLocked_asks made nested_asks ..).outcome)
            fun outcome => ?_
          exact asks_bind (asks_call (made _ rfl)) fun _ => asks_check (Program.asks_pure _)

theorem compute_asks (running refreshed : List RuleId) (e : Entry) (started : Instant) :
    (compute setup nested running refreshed e started).Asks P := by
  have reads : ∀ r : Request, r.ofReading = true → P r := fun r read =>
    made r (Request.ofRun_of_ofReading read)
  unfold compute
  split
  · exact asks_bind (computeBase_asks reads _) fun _ => asks_pure _
  · next dependencies operation residual _ =>
    have composite : ∀ refreshed : List RuleId,
        (computeComposite e.id dependencies operation residual >>= fun result =>
          pure (result.1, result.2, refreshed) :
            Action (Dataset × Instant × List RuleId)).Asks P :=
      fun _ => asks_bind (computeComposite_asks reads ..) fun _ => asks_pure _
    split
    · refine asks_bind (asks_bind (asks_call (made _ rfl)) fun now => ?_) fun _ => composite _
      exact asks_foldlM (fun _ _ => refreshDependency_asks made nested_asks ..) _ _
    · exact composite _

theorem materialize_asks (running refreshed : List RuleId) (id : RuleId) :
    (materialize setup nested running refreshed id).Asks P := by
  refine asks_bind (asks_call (made _ rfl)) fun row => ?_
  split
  · exact asks_throw _
  · refine asks_bind (asks_call (made _ rfl)) fun started => ?_
    refine asks_bind (compute_asks made nested_asks ..) fun computed => ?_
    refine asks_bind (orFail_asks (Program.asks_call (made _ rfl))) fun count => ?_
    refine asks_bind (asks_call (made _ rfl)) fun finished => ?_
    exact asks_bind (writeMetadata_asks (made _ rfl) _) fun _ => asks_pure _

theorem runWith_asks (running refreshed : List RuleId) (id : RuleId) :
    (runWith setup nested running refreshed id).Asks P := by
  unfold runWith
  split
  · exact asks_throw _
  · refine asks_bind (asks_call (made _ rfl)) fun _ => ?_
    refine asks_bind (asks_of (materialize_asks made nested_asks ..).outcome) fun outcome => ?_
    refine asks_bind (asks_call (made _ rfl)) fun _ => ?_
    exact asks_bind (asks_check (Program.asks_pure _)) fun _ => asks_pure _

end Nested

include made

/-- However deep a run goes, it makes no other requests. -/
theorem runRule_asks (depth : Nat) (running refreshed : List RuleId) (id : RuleId) :
    (runRule setup depth running refreshed id).Asks P := by
  induction depth generalizing running refreshed id with
  | zero => exact asks_throw _
  | succ depth ih => exact runWith_asks made ih ..

theorem execute_asks (id : RuleId) : (execute setup id).Asks P :=
  asks_bind (runRule_asks made ..) fun _ => asks_pure _

end Run

theorem executeLocked_asks {P : Request → Prop} (made : ∀ r : Request, r.ofRun = true → P r)
    (free : P .freeSlot) (join : P .join) (id : RuleId) : (executeLocked setup id).Asks P := by
  refine Program.asks_bind (execute_asks made id).outcome fun result => ?_
  refine Program.asks_bind (Program.asks_call (made _ rfl)) fun _ => ?_
  refine Program.asks_bind (Program.asks_call free) fun _ => ?_
  exact Program.asks_bind (Program.asks_call join) fun _ => Program.asks_pure _

theorem dispatch_asks {P : Request → Prop} (made : ∀ r : Request, r.ofDispatch = true → P r)
    (id : RuleId) (generation : Option Nat) : (dispatch setup id generation).Asks P := by
  have run : (executeLocked setup id).Asks P :=
    executeLocked_asks (fun r h => made r (Request.ofDispatch_of_ofRun h)) (made _ rfl) (made _ rfl)
      id
  refine Program.asks_bind (Program.asks_call (made _ rfl)) fun _ => ?_
  refine Program.asks_bind (Program.asks_call (made _ rfl)) fun _ => ?_
  split
  · exact Program.asks_bind (Program.asks_call (made _ rfl)) fun _ => run
  · exact run

/-- A run with its slot and its lock makes no other requests than a task. -/
theorem dispatch_isTask (id : RuleId) (generation : Option Nat) :
    (dispatch setup id generation).IsTask :=
  dispatch_asks (fun _ => Request.ofTask_of_ofDispatch) id generation

theorem passOver_asks (began : Instant) (entries : List Entry) (report : PassReport) :
    (passOver setup began entries report).IsTask := by
  induction entries generalizing report with
  | nil => exact Program.asks_pure _
  | cons e rest ih =>
    refine Program.asks_bind (Program.asks_call rfl) fun generation => ?_
    refine Program.asks_bind (dispatch_isTask ..) fun result => ?_
    have books := complete_asks setup fun _ => Request.ofTask_of_ofBooks
    refine Program.asks_bind (books ..) fun next => ?_
    split
    · exact Program.asks_pure _
    · exact ih _

/-- A pass makes no other requests. -/
theorem runPass_asks : (runPass setup).IsTask :=
  Program.asks_bind (Program.asks_call rfl) fun _ =>
    Program.asks_bind (Program.asks_call rfl) fun _ => passOver_asks ..

/-- A manual run makes no other requests. -/
theorem manualRun_asks (run : ManualRun) : (manualRun setup run).IsTask := by
  refine Program.asks_bind (dispatch_isTask ..) fun result => ?_
  have close : (Program.call (.closeRun run.sequence)).IsTask := Program.asks_call rfl
  split
  · refine Program.asks_bind (Program.asks_call rfl) fun now => ?_
    refine Program.asks_bind (Program.asks_call rfl) fun row => ?_
    exact Program.asks_bind (Program.asks_call rfl) fun _ => close
  · exact close

end Cohort
