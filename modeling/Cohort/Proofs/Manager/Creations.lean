import Cohort.Proofs.Manager.History
import Cohort.Proofs.Scheduler.Pass
import Cohort.Proofs.Text.Digits

/-!
# Rules that are only created

Where rules are created one after the other and nothing else happens, the catalogue grows and the
rest of the system stays as it was: no run is in progress, no table is written, and the clock goes
on. Every rule is then due at once, so the next pass computes all tables.

## Main definitions

* `State.createAll` — rules are created for drafts, one after the other
* `Undisturbed` — what happened between two states has nothing to do with runs
* `Entry.Resolved` — a row as it is planned for conditions without a composition
* `Stocked` — the states in which rules were only created

## Main results

* `createAll_stocked` — drafts without a composition lead to such a state
* `Stocked.pass` — the next pass computes all tables
-/

namespace Cohort

open Cohort.Action

variable {setup : Setup} {drafts : List RuleDraft} {d : RuleDraft} {c c' : Catalog}
  {e : Entry} {s s' s'' start : State}

/-- The state after rules were created for drafts, one after the other. Each time this can succeed
or fail. -/
def State.createAll (setup : Setup) (drafts : List RuleDraft) (s : State) : State :=
  drafts.foldl (fun s d => Operation.apply setup s (.create d)) s

theorem State.createAll_cons (setup : Setup) (d : RuleDraft) (drafts : List RuleDraft) (s : State) :
    s.createAll setup (d :: drafts) =
      (Operation.apply setup s (.create d)).createAll setup drafts := by
  rw [createAll, List.foldl_cons, createAll]

/-! ## What creating a rule leaves alone -/

/-- What is asked for when a rule is created or changed. -/
def Request.ofChange : Request → Bool
  | .allocateId | .getRow _ | .listRows | .insertRow _ | .replaceRow .. | .removeRow _ | .now |
    .emit _ | .removeJob _ | .installJob .. => true
  | _ => false

theorem Request.ofChange_of_ofSchedule {r : Request} (h : r.ofSchedule = true) :
    r.ofChange = true := by
  cases r <;> simp_all [ofSchedule, ofChange]

/-- What is asked for when a rule is planned that must not make use of the excluded ones. -/
def Request.ofPlanning (excluded : List RuleId) : Request → Bool
  | .getRow id => !excluded.contains id
  | .listRows => true
  | _ => false

section Planning

variable {excluded : List RuleId} {P : Request → Prop}

theorem Request.ofChange_of_ofPlanning {r : Request} (h : r.ofPlanning excluded = true) :
    r.ofChange = true := by
  cases r <;> simp_all [ofPlanning, ofChange]

theorem inherited_asks (made : ∀ r : Request, r.ofPlanning excluded = true → P r)
    (dependency : RuleId) : (inherited excluded dependency).Asks P := by
  unfold inherited
  split
  · exact asks_throw _
  · next not_excluded =>
    have allowed : Request.ofPlanning excluded (.getRow dependency) = true := by
      simpa [Request.ofPlanning] using not_excluded
    refine asks_bind (asks_call (made _ allowed)) fun row => ?_
    split
    · exact asks_throw _
    · exact asks_pure _

theorem plan_asks (made : ∀ r : Request, r.ofPlanning excluded = true → P r)
    (conditions : List Condition) (composition : Option Composition) :
    (plan setup conditions composition excluded).Asks P := by
  unfold plan
  split
  · unfold planComposition
    split
    · exact asks_throw _
    · exact asks_bind (asks_mapM (inherited_asks made) _) fun _ => asks_pure _
  · exact asks_bind (asks_call (made _ rfl)) fun _ => asks_pure _

end Planning

theorem commitCreate_asks (stored : Entry) (warnings : List Warning) :
    (commitCreate setup stored warnings).Asks fun r => r.ofChange = true := by
  unfold commitCreate
  have scheduled : (schedule setup stored.rule).Asks fun r => r.ofChange = true :=
    schedule_asks (fun r => r.ofChange_of_ofSchedule) _
  refine asks_bind (asks_of scheduled.outcome) fun result => ?_
  split
  · exact asks_bind (asks_call rfl) fun _ => asks_throw _
  · exact asks_bind (asks_call rfl) fun _ => asks_pure _

theorem createRule_asks (setup : Setup) (d : RuleDraft) :
    (createRule setup d).Asks fun r => r.ofChange = true := by
  unfold createRule
  dsimp only
  split
  · exact asks_throw _
  refine asks_bind (asks_call rfl) fun rows => ?_
  split
  · exact asks_throw _
  refine asks_bind (asks_call rfl) fun id => ?_
  refine asks_bind (plan_asks (fun r => r.ofChange_of_ofPlanning) _ _) fun p => ?_
  refine asks_bind (asks_call rfl) fun now => ?_
  refine asks_bind (asks_check (Program.asks_call rfl)) fun stored => ?_
  exact commitCreate_asks stored _

/-- What happened between two states has nothing to do with runs, no failure was ordered, and the
clock went on. -/
structure Undisturbed (s s' : State) : Prop where
  engine : s'.engine = s.engine
  locks : s'.locks = s.locks
  slots : s'.slots = s.slots
  reading : s'.clock.reading = s.clock.reading
  readings : s.clock.readings ≤ s'.clock.readings
  faults : s.faults = {} → s'.faults = {}

theorem Undisturbed.refl (s : State) : Undisturbed s s :=
  ⟨rfl, rfl, rfl, rfl, Nat.le_refl _, fun h => h⟩

theorem Undisturbed.trans (h : Undisturbed s s') (h' : Undisturbed s' s'') : Undisturbed s s'' :=
  ⟨h'.engine.trans h.engine, h'.locks.trans h.locks, h'.slots.trans h.slots,
    h'.reading.trans h.reading, Nat.le_trans h.readings h'.readings,
    fun none_ordered => h'.faults (h.faults none_ordered)⟩

theorem State.perform_undisturbed {r : Request} (h : r.ofChange = true) (s : State) :
    Undisturbed s (s.perform r).2 := by
  by_cases rows : r.ofRows = true
  · have none_ordered : s.faults = {} → (s.perform r).2.faults = {} :=
      fun none_ordered => perform_faultless none_ordered r
    obtain ⟨catalog, faults, same⟩ := s.perform_ofRows rows
    rw [same] at none_ordered ⊢
    exact ⟨rfl, rfl, rfl, rfl, Nat.le_refl _, none_ordered⟩
  · cases r <;> simp [Request.ofChange, Request.ofRows] at h rows
    case now => exact ⟨rfl, rfl, rfl, rfl, Nat.le_succ _, fun h => h⟩
    all_goals exact ⟨rfl, rfl, rfl, rfl, Nat.le_refl _, fun h => h⟩

theorem create_undisturbed (setup : Setup) (s : State) (d : RuleDraft) :
    Undisturbed s (Operation.apply setup s (.create d)) := by
  have kept := (createRule_asks setup d).outcome.keeps (fun s' => Undisturbed s s')
    (fun r s' hr hs => hs.trans (s'.perform_undisturbed hr)) (Undisturbed.refl s)
  rw [Operation.apply]
  exact kept

/-! ## Rows without a composition -/

/-- The row is as it is planned for declared conditions without a composition: a query for all of
them, or the intersection of rules that stand for a part of them. -/
inductive Entry.Resolved (setup : Setup) (c : Catalog) (e : Entry) : Prop
  | base (own : e.rule.conditions = e.rule.declared)
      (source : e.segment.source = .base (setup.view.compile e.rule.declared).query)
  | cover (ids : List RuleId) (nonempty : ids ≠ [])
      (own : ∀ x ∈ e.rule.conditions, x ∈ e.rule.declared)
      (source : e.segment.source =
        .composite ids .intersection (setup.view.residual e.rule.conditions))
      (narrower : ∀ p ∈ ids, ∃ r, c.get? p = some r ∧
        (KeySet.ofConditions r.rule.declared).subset (KeySet.ofConditions e.rule.declared) = true)

/-- What is planned without a composition is resolved. -/
theorem Planned.resolved {p : Plan} (indexed : c.Indexed)
    (h : Planned setup c d.conditions [c.nextId] none p) {now : Instant} {name : String}
    (he : e = { (d.entry setup c.nextId name now).withPlan p with version := 1 }) :
    e.Resolved setup c ∧ e.rule.declared = d.conditions := by
  cases h with
  | covered =>
    unfold planCover at he
    split at he
    · next cover found =>
      -- What is left of the conditions is tested by the rule itself.
      obtain ⟨nonempty, chosen, residual⟩ := Cover.find?_eq_some found
      have chosen_ids : cover.dependencies ≠ [] := by rwa [chosen, ne_eq, List.map_eq_nil_iff]
      refine ⟨.cover cover.dependencies chosen_ids ?_ ?_ ?_, by rw [he]; rfl⟩
      · rw [he]
        intro x hx
        change x ∈ cover.residual at hx
        rw [residual] at hx
        exact Cover.mem_of_mem_firsts (List.mem_filter.mp hx).1
      · rw [he]
        rfl
      -- A candidate is chosen only if its conditions are part of the declared ones.
      · intro q hq
        rw [chosen] at hq
        obtain ⟨candidate, hc, rfl⟩ := List.mem_map.mp hq
        obtain ⟨rule, hrule, covers, rfl⟩ :=
          Cover.mem_candidates.mp (Cover.mem_candidates_of_mem_selection hc)
        obtain ⟨r, hr, rfl⟩ := List.mem_map.mp hrule
        refine ⟨r, indexed.get?_eq_some.mpr ⟨hr, rfl⟩, ?_⟩
        rw [he]
        exact covers.part
    · rw [he]
      exact ⟨.base rfl rfl, rfl⟩

/-- Rows that are added later do not matter. -/
theorem Entry.Resolved.of_grown (h : e.Resolved setup c)
    (grown : ∀ id r, c.get? id = some r → c'.get? id = some r) : e.Resolved setup c' := by
  cases h with
  | base own source => exact .base own source
  | cover ids nonempty own source narrower =>
    refine .cover ids nonempty own source fun p hp => ?_
    obtain ⟨r, found, subset⟩ := narrower p hp
    exact ⟨r, grown p r found, subset⟩

/-! ## States in which rules were only created -/

/-- Since `start` rules were created for active drafts without a composition, and nothing else
happened. -/
structure Stocked (setup : Setup) (drafts : List RuleDraft) (start s : State) : Prop where
  regular : s.catalog.Regular setup.naming
  undisturbed : Undisturbed start s
  resolved : ∀ e ∈ s.catalog.list, e.Resolved setup s.catalog
  drafted : ∀ e ∈ s.catalog.list, ∃ d ∈ drafts, e.rule.declared = d.conditions
  active : ∀ e ∈ s.catalog.list, e.rule.active = true
  timed : ∀ e ∈ s.catalog.list, ∃ i ≤ s.clock.readings,
    e.rule.nextRunAt = some (s.clock.reading i)

/-- What creating a rule does to the rows. -/
theorem create_cases (setup : Setup) (s : State) (d : RuleDraft) :
    (Operation.apply setup s (.create d)).catalog.rows = s.catalog.rows ∨
      ∃ e, Created setup d s.catalog s.clock.read.1 e
        (Operation.apply setup s (.create d)).catalog := by
  rw [Operation.apply]
  exact ((createRule_yields setup d s).mono (fun _ _ created => .inr ⟨_, created⟩)
    fun _ _ h => h).state

theorem stocked_start (clock : Clock) (engine : Engine) :
    Stocked setup drafts (setup.start clock engine) (setup.start clock engine) := by
  have empty : ∀ e, e ∉ (setup.start clock engine).catalog.list := by
    simp [Setup.start, Catalog.mem_list_iff]
  exact ⟨.empty, .refl _, fun e he => (empty e he).elim, fun e he => (empty e he).elim,
    fun e he => (empty e he).elim, fun e he => (empty e he).elim⟩

/-- Creating one more rule, whether this succeeds or fails. -/
theorem Stocked.create (h : Stocked setup drafts start s) (hd : d ∈ drafts)
    (active : d.active = true) (plain : d.composition = none) :
    Stocked setup drafts start (Operation.apply setup s (.create d)) := by
  have regular := Operation.apply_regular (.create d) h.regular
  have undisturbed := create_undisturbed setup s d
  have cases := create_cases setup s d
  generalize Operation.apply setup s (.create d) = s' at regular undisturbed cases ⊢
  have later : ∀ e : Entry, (∃ i ≤ s.clock.readings, e.rule.nextRunAt = some (s.clock.reading i)) →
      ∃ i ≤ s'.clock.readings, e.rule.nextRunAt = some (s'.clock.reading i) := by
    rintro e ⟨i, hi, hnext⟩
    exact ⟨i, Nat.le_trans hi undisturbed.readings, by rw [hnext, undisturbed.reading]⟩
  rcases cases with same | ⟨new, created⟩
  -- No row was added.
  · have same_list : s'.catalog.list = s.catalog.list := by rw [Catalog.list, Catalog.list, same]
    have grown : ∀ id r, s.catalog.get? id = some r → s'.catalog.get? id = some r := by
      intro id r found
      rw [← found, Catalog.get?, Catalog.get?, same]
    refine ⟨regular, h.undisturbed.trans undisturbed, ?_, ?_, ?_, ?_⟩
    all_goals rw [same_list]
    · exact fun e he => (h.resolved e he).of_grown grown
    · exact h.drafted
    · exact h.active
    · exact fun e he => later e (h.timed e he)
  · have indexed := h.regular.sound.indexed
    have grown : ∀ id r, s.catalog.get? id = some r → s'.catalog.get? id = some r := by
      intro id r found
      rw [Catalog.get?_of_put created.rows, if_neg, found]
      -- The identifier of the new row was free.
      rintro rfl
      rw [created.fresh] at found
      cases found
    obtain ⟨p, planned, hnew⟩ := created.planned
    rw [plain] at planned
    obtain ⟨resolved, declared⟩ := planned.resolved indexed hnew
    have mem_iff : ∀ e, e ∈ s'.catalog.list → e = new ∨ e ∈ s.catalog.list := fun e he =>
      ((indexed.mem_list_put created.rows).mp he).imp_right And.left
    have new_active : new.rule.active = true := by
      rw [hnew]
      exact active
    -- The first run of an active rule is due when it is created.
    have new_timed : new.rule.nextRunAt = some (s.clock.reading s.clock.readings) := by
      rw [hnew]
      change (if d.active then some s.clock.read.1 else none) = _
      rw [if_pos active]
      rfl
    refine ⟨regular, h.undisturbed.trans undisturbed, fun e he => ?_, fun e he => ?_,
      fun e he => ?_, fun e he => ?_⟩
    all_goals rcases mem_iff e he with rfl | he
    · exact resolved.of_grown grown
    · exact (h.resolved e he).of_grown grown
    · exact ⟨d, hd, declared⟩
    · exact h.drafted e he
    · exact new_active
    · exact h.active e he
    · exact later e ⟨_, Nat.le_refl _, new_timed⟩
    · exact later e (h.timed e he)

/-- Creating rules for active drafts without a composition. -/
theorem createAll_stocked (setup : Setup)
    (plain : ∀ d ∈ drafts, d.active = true ∧ d.composition = none) (clock : Clock)
    (engine : Engine) :
    Stocked setup drafts (setup.start clock engine)
      ((setup.start clock engine).createAll setup drafts) := by
  have created : ∀ (some_drafts : List RuleDraft) (s : State), (∀ d ∈ some_drafts, d ∈ drafts) →
      Stocked setup drafts (setup.start clock engine) s →
      Stocked setup drafts (setup.start clock engine) (s.createAll setup some_drafts) := by
    intro some_drafts
    induction some_drafts with
    | nil => exact fun s _ h => h
    | cons d rest ih =>
      intro s listed h
      obtain ⟨hd, listed_rest⟩ := List.forall_mem_cons.mp listed
      rw [State.createAll_cons]
      exact ih _ listed_rest (h.create hd (plain d hd).1 (plain d hd).2)
  exact created drafts _ (fun d hd => hd) (stocked_start clock engine)

/-! ## The next pass -/

namespace Stocked

variable {clock : Clock} {engine : Engine}

theorem tables_nodup (h : Stocked setup drafts start s) :
    (s.catalog.list.map fun e => e.segment.table).Nodup := by
  have tables : (s.catalog.list.map fun e => e.segment.table) =
      (s.catalog.list.map Entry.id).map setup.naming.tableName := by
    rw [List.map_map]
    exact List.map_congr_left fun e he => (h.regular.named e he).table
  have injective : Function.Injective setup.naming.tableName := fun a b same =>
    RuleId.text_injective (String.append_right_inj _ |>.mp same)
  rw [tables]
  exact h.regular.sound.indexed.nodup_ids.map injective

theorem due (h : Stocked setup drafts (setup.start clock engine) s)
    (onwards : clock.NeverGoesBack) : ∀ e ∈ s.catalog.list, e.isDue s.clock.read.1 = true := by
  intro e he
  -- The time of the run was read before, and the clock does not go back.
  obtain ⟨i, hi, hnext⟩ := h.timed e he
  have on_time : s.clock.reading i ≤ s.clock.reading s.clock.readings := by
    rw [h.undisturbed.reading]
    exact onwards i _ hi
  simp only [Entry.isDue, h.active e he, hnext, Bool.true_and, Option.all_some]
  exact decide_eq_true on_time

/-- The next pass computes all tables. -/
theorem pass (h : Stocked setup drafts (setup.start clock engine) s)
    (onwards : clock.NeverGoesBack) (healthy : engine.Healthy) {e : Entry}
    (he : e ∈ s.catalog.list) :
    ((runPass setup).run s).2.engine.table? e.segment.table =
      some (meaning s.catalog.list engine.transactions e.id) := by
  have same_engine : s.engine = engine := h.undisturbed.engine
  obtain ⟨report, -, -, -, -, tables⟩ := runPass_tables setup h.regular.sound h.tables_nodup
    (h.due onwards) (same_engine ▸ healthy) (h.undisturbed.faults rfl)
  rw [tables e he, same_engine]

end Stocked

end Cohort
