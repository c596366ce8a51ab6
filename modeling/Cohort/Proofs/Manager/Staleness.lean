import Cohort.Proofs.Manager.Creations
import Cohort.Proofs.Manager.Rollback
import Cohort.Proofs.Run.Provenance

/-!
# Stale tables

When the source of a rule changes, its table is stale until the next run. An active rule is due
then, so that the next pass runs it, and so does any run that reads its table. Nobody waits for a
rule that is not active: its table stays as it is, and other rules go on to read it. Every later
change of the rule has to keep this in order, whichever members it has.

## Main definitions

* `Standing.after` — how a table stands after the row of its rule was changed
* `Operation.follow` — an operation with the trail that it leaves
* `Tracked` — the states of a system in which nothing fails, with their trails

## Main results

* `Watched.operation` — an operation leaves all tables explained
* `stale_tables_are_due` — a table whose source has changed belongs to a rule that is due, if the
  rule is active and its schedule has not changed since then
* `stale_table_unnoticed` — tables whose source has changed without the rule being due: the rule was
  not active, or its schedule has changed after the source
-/

namespace Cohort

open Cohort.Action

/-! ## Following operations -/

/-- How a table stands after the row of its rule was changed. A rule that gets another source is due
if it is active, and so is one that becomes active. Another schedule moves the time at which it is
due. -/
def Standing.after (standing : Standing) (old new : Entry) : Standing :=
  if new.segment.source ≠ old.segment.source then .changed
  else if standing = .current then .current
  else if new.rule.active && !old.rule.active then .changed
  else if new.rule.schedule ≠ old.rule.schedule then .moved
  else standing

/-- The trail after the row of a rule was changed. -/
def Trail.revised (w : Trail) : Option Entry → Option Entry → Trail
  | some old, some new =>
    w.set new.segment.table
      { w new.segment.table with
        standing := (w new.segment.table).standing.after old new }
  | _, _ => w

/-- The state and the trail after a program that runs alone. -/
def Program.follow {α : Type} (p : Program α) (x : State × Trail) : State × Trail :=
  ((p.run x.1).2, p.trail x.1 x.2)

/-- The state and the trail after an operation, whether it succeeds or fails. -/
def Operation.follow (setup : Setup) (x : State × Trail) : Operation → State × Trail
  | .create draft => (createRule setup draft).outcome.follow x
  | .update id patch =>
    let (s', w') := (updateRule setup id patch).outcome.follow x
    (s', w'.revised (x.1.catalog.get? id) (s'.catalog.get? id))
  | .delete id => (deleteRule setup id).outcome.follow x
  | .pass => (runPass setup).follow x
  | .runByHand id =>
    let x := (trigger setup id).outcome.follow x
    x.1.board.manual.foldl (fun x run => (manualRun setup run).follow x) x

/-- The states of a system in which nothing fails, with their trails. It starts without rules and
tables. Operations are applied one after the other, each where there is something that carries out
jobs or where there is not, and between them other transactions can come in. -/
inductive Tracked (setup : Setup) : State → Trail → Prop
  | start (clock : Clock) (engine : Engine) (healthy : engine.Healthy)
      (empty : engine.tables = []) :
      Tracked setup (setup.start clock engine) fun _ => {}
  | apply {s : State} {w : Trail} (hasRuntime : Bool) (operation : Operation)
      (h : Tracked setup s w) :
      Tracked setup (operation.follow { setup with hasRuntime } (s, w)).1
        (operation.follow { setup with hasRuntime } (s, w)).2
  | arrive {s : State} {w : Trail} (transactions : List Transaction) (h : Tracked setup s w) :
      Tracked setup { s with engine := { s.engine with transactions } } w

variable {setup : Setup} {s s' : State} {w w' : Trail} {id : RuleId} {e current new : Entry}
  {c c' : Catalog} {patch : RulePatch} {now : Instant}

namespace Program

variable {α : Type}

theorem follow_fst (p : Program α) (x : State × Trail) : (p.follow x).1 = (p.run x.1).2 := rfl

theorem follow_snd (p : Program α) (x : State × Trail) : (p.follow x).2 = p.trail x.1 x.2 := rfl

theorem traces_follow {p : Program α} {inv : State → Trail → Prop} {x : State × Trail}
    (h : p.Traces x.1 x.2 fun _ => inv) : inv (p.follow x).1 (p.follow x).2 := by
  rw [follow_fst, follow_snd]
  exact traces_iff.mp h

end Program

-- A program is followed by the lemmas above, and never run.
attribute [irreducible] Program.follow

/-- The state does not depend on the trail. -/
theorem Operation.follow_fst (operation : Operation) (x : State × Trail) :
    (operation.follow setup x).1 = operation.apply setup x.1 := by
  cases operation with
  | create draft => rw [follow, apply, Program.follow_fst]
  | update id patch => rw [follow, apply, Program.follow_fst]
  | delete id => rw [follow, apply, Program.follow_fst]
  | pass => rw [follow, apply, Program.follow_fst]
  | runByHand id =>
    rw [follow, apply, State.runByHand, ← Program.follow_fst]
    exact (List.foldl_hom Prod.fst fun x run => (Program.follow_fst _ x).symm).symm

theorem Trail.revised_written (w : Trail) (old new : Option Entry) (table : String) :
    (w.revised old new table).written = (w table).written := by
  unfold revised
  split
  · simp only [set]
    split
    · next same => rw [same]
    · rfl
  · rfl

/-- What every request preserves, and every change of a mark, an operation preserves. -/
theorem Operation.follow_keeps (inv : State → Trail → Prop)
    (step : ∀ r s w, inv s w → inv (s.perform r).2 (w.note s r))
    (revised : ∀ s w old new, inv s w → inv s (w.revised old new)) (operation : Operation)
    (h : inv s w) :
    inv (operation.follow setup (s, w)).1 (operation.follow setup (s, w)).2 := by
  have program : ∀ {α : Type} (p : Program α) (x : State × Trail), inv x.1 x.2 →
      inv (p.follow x).1 (p.follow x).2 := fun p x hx =>
    Program.traces_follow ((Program.asks_any p).traces inv (fun r s w _ => step r s w) hx)
  cases operation with
  | create draft => exact program _ (s, w) h
  | update id patch => exact revised _ _ _ _ (program _ (s, w) h)
  | delete id => exact program _ (s, w) h
  | pass => exact program _ (s, w) h
  | runByHand id =>
    exact List.foldlRecOn (motive := fun x => inv x.1 x.2) _ _ (program _ (s, w) h)
      fun x hx run _ => program _ x hx

/-! ## What keeps tables explained -/

namespace State.Explains

/-- Rows that stay as they are stay explained. -/
theorem of_rows_eq (h : s.Explains w) (rows : s'.catalog.rows = s.catalog.rows)
    (later : ∀ t, s.clock.HasShown t → s'.clock.HasShown t) : s'.Explains w := by
  intro a x found written
  rw [Catalog.get?, rows] at found
  exact (h a x found written).of_mark later rfl

/-- A row is put in place, and the marks of all other tables stay as they are. -/
theorem put (h : s.Explains w) (rows : s'.catalog.rows = Assoc.put e.id e s.catalog.rows)
    (later : ∀ t, s.clock.HasShown t → s'.clock.HasShown t)
    (others : ∀ a x, e.id ≠ a → s.catalog.get? a = some x →
      w' x.segment.table = w x.segment.table)
    (own : e.segment.isMaterialized = true → e.IsExplained s'.clock w') : s'.Explains w' := by
  intro a x found written
  rw [Catalog.get?_of_put rows] at found
  split at found
  · obtain rfl := Option.some.inj found
    exact own written
  · next other => exact (h a x found written).of_mark later (others a x other found)

/-- A row is removed, and the marks of all other tables stay as they are. -/
theorem erase (h : s.Explains w) (rows : s'.catalog.rows = Assoc.erase id s.catalog.rows)
    (later : ∀ t, s.clock.HasShown t → s'.clock.HasShown t)
    (others : ∀ a x, id ≠ a → s.catalog.get? a = some x →
      w' x.segment.table = w x.segment.table) : s'.Explains w' := by
  intro a x found written
  rw [Catalog.get?_of_erase rows] at found
  split at found
  · cases found
  · next other => exact (h a x found written).of_mark later (others a x other found)

/-- A request that changes neither rows nor tables. -/
theorem perform (h : s.Explains w) {r : Request} (kept : r.leavesCatalog = true) :
    (s.perform r).2.Explains w :=
  h.of_rows_eq (congrArg Catalog.rows (s.perform_catalog kept)) fun _ shown =>
    State.perform_hasShown shown r

end State.Explains

/-- Different rules have different tables. -/
theorem Catalog.Regular.tablesDistinct {naming : Settings.Naming} (h : c.Regular naming) :
    c.TablesDistinct := by
  intro e he e' he' same
  rw [(h.named e he).table, (h.named e' he').table] at same
  exact RuleId.text_injective (String.append_right_inj _ |>.mp same)

theorem Catalog.Regular.table_ne {naming : Settings.Naming} (h : c.Regular naming)
    {a b : RuleId} {e e' : Entry} (found : c.get? a = some e) (found' : c.get? b = some e')
    (other : a ≠ b) : e.segment.table ≠ e'.segment.table := by
  obtain ⟨he, rfl⟩ := h.sound.indexed.get?_eq_some.mp found
  obtain ⟨he', rfl⟩ := h.sound.indexed.get?_eq_some.mp found'
  exact fun same => other (h.tablesDistinct e he e' he' same)

/-- What holds in a system in which nothing fails. -/
structure Watched (setup : Setup) (s : State) (w : Trail) : Prop where
  regular : s.catalog.Regular setup.naming
  healthy : s.engine.Healthy
  faultless : s.faults = {}
  agrees : w.Agrees s
  explains : s.Explains w

/-- Nothing fails while the definitions and the transactions stay the same. -/
theorem Watched.explained (h : Watched setup s w) :
    Explained s.catalog s.engine.transactions s w :=
  ⟨⟨h.regular.sound.indexed, .refl _, rfl, h.healthy, h.faultless⟩, h.explains⟩

/-- What the clock has shown, it has shown after any program. -/
theorem Program.run_hasShown {α : Type} (p : Program α) {t : Instant}
    (shown : s.clock.HasShown t) : (p.run s).2.clock.HasShown t :=
  (Program.asks_any p).keeps (fun s => s.clock.HasShown t)
    (fun r _ _ earlier => State.perform_hasShown earlier r) shown

/-! ## Creating and changing rules -/

theorem Request.leavesTables_of_ofChange {r : Request} (h : r.ofChange = true) :
    r.leavesTables = true := by
  cases r <;> simp_all [ofChange, leavesTables]

theorem Watched.explains_create (h : Watched setup s w) (d : RuleDraft) :
    (createRule setup d).outcome.Traces s w fun _ => State.Explains := by
  have later : ∀ t, s.clock.HasShown t →
      (Operation.apply setup s (.create d)).clock.HasShown t := by
    rw [Operation.apply]
    exact fun _ => Program.run_hasShown _
  rw [Program.traces_iff, Program.trail_eq ((createRule_asks setup d).outcome.mono fun _ =>
    Request.leavesTables_of_ofChange)]
  have cases := create_cases setup s d
  change (Operation.apply setup s (.create d)).Explains w
  rcases cases with same | ⟨e, created⟩
  · exact h.explains.of_rows_eq same later
  -- The table of a new rule was never written.
  · refine h.explains.put created.rows later (fun _ _ _ _ => rfl) fun written => ?_
    obtain ⟨p, -, rfl⟩ := created.planned
    cases written

theorem commitUpdate_asks (current stored : Entry) (warnings : List Warning) :
    (commitUpdate setup current stored warnings).Asks fun r => r.ofChange = true := by
  have scheduled : ∀ rule : Rule, (schedule setup rule).Asks fun r => r.ofChange = true :=
    schedule_asks fun r => r.ofChange_of_ofSchedule
  unfold commitUpdate
  refine asks_bind (asks_of (scheduled _).outcome) fun result => ?_
  split
  · refine asks_bind (asks_call rfl) fun replaced => ?_
    split
    · exact asks_bind (asks_of (scheduled _).outcome) fun _ => asks_throw _
    · exact asks_throw _
  · exact asks_bind (asks_call rfl) fun _ => asks_pure _

theorem applyPatch_asks (current : Entry) (patch : RulePatch) :
    (applyPatch setup current patch).Asks fun r => r.ofChange = true := by
  unfold applyPatch
  refine asks_bind (asks_call rfl) fun now => ?_
  refine asks_bind (asks_check (Program.asks_pure _)) fun next => ?_
  split
  · exact asks_pure _
  · refine asks_bind ?_ fun _ => asks_pure _
    unfold replan
    refine asks_bind (asks_call rfl) fun rows => ?_
    dsimp only
    split
    · exact asks_throw _
    · exact asks_bind (plan_asks (fun r => r.ofChange_of_ofPlanning) _ _) fun _ => asks_pure _

theorem updateOnce_asks {again : Failure → Action RuleOutcome}
    (again_asks : ∀ failure, (again failure).Asks fun r => r.ofChange = true) (id : RuleId)
    (patch : RulePatch) : (updateOnce setup id patch again).Asks fun r => r.ofChange = true := by
  unfold updateOnce
  refine asks_bind (asks_call rfl) fun row => ?_
  split
  · exact asks_throw _
  · refine asks_bind (applyPatch_asks _ _) fun patched => ?_
    dsimp only
    refine asks_bind (asks_call rfl) fun replaced => ?_
    split
    · exact commitUpdate_asks _ _ _
    · split
      · exact again_asks _
      · exact asks_throw _

theorem updateRule_asks (setup : Setup) (id : RuleId) (patch : RulePatch) :
    (updateRule setup id patch).Asks fun r => r.ofChange = true := by
  have within : ∀ more : Nat,
      (updateWithin setup id patch more).Asks fun r => r.ofChange = true := by
    intro more
    induction more with
    | zero => exact updateOnce_asks (fun _ => asks_throw _) id patch
    | succ fewer ih => exact updateOnce_asks (fun _ => ih) id patch
  exact within 2

/-- Of a segment, a patch changes the source at most. -/
theorem Patched.segment_eq (h : Patched setup c current patch now new) :
    new.segment = { current.segment with source := new.segment.source } := by
  cases h with
  | plain applied =>
    obtain ⟨name, -, rfl⟩ := applyPlain_eq applied
    rfl
  | replanned applied =>
    obtain ⟨name, -, rfl⟩ := applyPlain_eq applied
    rfl

/-- A rule that is active after a change is due now, or it has kept its source and was active
before. Then the time at which it is due is the same unless the schedule is another. -/
theorem Patched.due_cases (h : Patched setup c current patch now new)
    (active : new.rule.active = true) :
    new.rule.nextRunAt = some now ∨
      new.segment.source = current.segment.source ∧ current.rule.active = true ∧
        (new.rule.schedule = current.rule.schedule →
          new.rule.nextRunAt = current.rule.nextRunAt) := by
  cases h with
  | plain applied =>
    obtain ⟨name, -, rfl⟩ := applyPlain_eq applied
    dsimp only [Entry.touched] at active ⊢
    rw [active]
    cases was_active : current.rule.active with
    | false => exact .inl rfl
    | true => exact .inr ⟨rfl, rfl, fun same => if_pos same⟩
  | replanned applied =>
    obtain ⟨name, -, rfl⟩ := applyPlain_eq applied
    exact .inl (if_pos active)

theorem Standing.after_same {old new : Entry} (standing : Standing)
    (source : new.segment.source = old.segment.source)
    (active : new.rule.active = old.rule.active)
    (schedule : new.rule.schedule = old.rule.schedule) : standing.after old new = standing := by
  simp only [after, source, active, schedule]
  cases standing <;> simp

theorem Trail.revised_same {old new : Entry} (w : Trail)
    (source : new.segment.source = old.segment.source)
    (active : new.rule.active = old.rule.active)
    (schedule : new.rule.schedule = old.rule.schedule) :
    w.revised (some old) (some new) = w := by
  funext table
  simp only [revised, Standing.after_same _ source active schedule, set]
  split
  · next same => rw [same]
  · rfl

theorem Trail.revised_self (w : Trail) (row : Option Entry) : w.revised row row = w := by
  cases row with
  | none => rfl
  | some e => exact w.revised_same rfl rfl rfl

theorem Standing.of_after_current {old new : Entry} {standing : Standing}
    (h : standing.after old new = .current) :
    standing = .current ∧ new.segment.source = old.segment.source := by
  unfold after at h
  split_ifs at h with source <;> simp_all

/-- A rule that has kept its source, and was active before, had another source before. -/
theorem Standing.of_after_changed {old new : Entry} {standing : Standing}
    (h : standing.after old new = .changed) (source : new.segment.source = old.segment.source)
    (was_active : old.rule.active = true) :
    standing = .changed ∧ new.rule.schedule = old.rule.schedule := by
  unfold after at h
  simp only [source, was_active] at h
  cases standing <;> simp_all

/-- After a change of its row, a table is explained as before, or the rule is due. -/
theorem Patched.isExplained {clock clock' : Clock}
    (h : Patched setup c current patch now new) (explained : current.IsExplained clock w)
    (later : ∀ t, clock.HasShown t → clock'.HasShown t) (shown : clock'.HasShown now) :
    new.IsExplained clock' (w.revised (some current) (some new)) := by
  have table : new.segment.table = current.segment.table := h.table_eq
  have mark : (w.revised (some current) (some new) new.segment.table).standing =
      (w current.segment.table).standing.after current new := by
    rw [Trail.revised, Trail.set_self, table]
  unfold Entry.IsExplained at explained ⊢
  rw [mark]
  cases after : (w current.segment.table).standing.after current new with
  | current =>
    obtain ⟨standing, source⟩ := Standing.of_after_current after
    rw [standing] at explained
    exact (explained.of_same h.id_eq table source).of_written (w.revised_written ..)
  | changed =>
    intro active
    rcases h.due_cases active with at_now | ⟨source, was_active, kept⟩
    · exact ⟨now, at_now, shown⟩
    -- The rule was due before, and the time is still the same.
    · obtain ⟨standing, schedule⟩ := Standing.of_after_changed after source was_active
      rw [standing] at explained
      obtain ⟨t, due, earlier⟩ := explained was_active
      exact ⟨t, (kept schedule).trans due, later t earlier⟩
  | moved => trivial

/-- A row that is put in place of one with the same table keeps the marks of all other tables. -/
theorem Watched.explains_put (h : Watched setup s w) (found : s.catalog.get? id = some current)
    (rows : s'.catalog.rows = Assoc.put id new s.catalog.rows)
    (later : ∀ t, s.clock.HasShown t → s'.clock.HasShown t) (new_id : new.id = id)
    (table : new.segment.table = current.segment.table)
    (own : new.segment.isMaterialized = true →
      new.IsExplained s'.clock (w.revised (some current) (some new))) :
    s'.Explains (w.revised (s.catalog.get? id) (s'.catalog.get? id)) := by
  subst new_id
  rw [found, Catalog.get?_of_put rows, if_pos rfl]
  refine h.explains.put rows later (fun a x other found_x => ?_) own
  refine Trail.set_of_ne _ _ ?_
  rw [table]
  exact h.regular.table_ne found found_x other

theorem Watched.explains_update (h : Watched setup s w) (id : RuleId) (patch : RulePatch) :
    ((Operation.update id patch).follow setup (s, w)).1.Explains
      ((Operation.update id patch).follow setup (s, w)).2 := by
  rw [Operation.follow]
  dsimp only
  rw [Program.follow_fst, Program.follow_snd, Program.trail_eq
    ((updateRule_asks setup id patch).outcome.mono fun _ => Request.leavesTables_of_ofChange)]
  dsimp only
  have later : ∀ t, s.clock.HasShown t →
      ((updateRule setup id patch).outcome.run s).2.clock.HasShown t :=
    fun _ => Program.run_hasShown _
  have cases : UpdateFailed setup id patch s.catalog
      ((updateRule setup id patch).outcome.run s).2 :=
    ((updateRule_yields setup id patch s).mono (fun _ _ done => .inr (.inl ⟨_, done⟩))
      fun _ _ failed => failed).state
  generalize ((updateRule setup id patch).outcome.run s).2 = s' at later cases ⊢
  rcases cases with same | ⟨stored, now, shown, updated⟩ |
    ⟨current, restored, version, found, rfl, -, rows⟩
  · have same_row : s'.catalog.get? id = s.catalog.get? id := by
      rw [Catalog.get?, same, Catalog.get?]
    rw [same_row, w.revised_self]
    exact h.explains.of_rows_eq same later
  · obtain ⟨current, new, found, patched, rfl, -⟩ := updated.patched
    have current_id := h.regular.sound.indexed.id_of_get? found
    have new_id : new.id = id := patched.id_eq.trans current_id
    have placed : s'.catalog.rows =
        Assoc.put id { new with version := current.version + 1 } s.catalog.rows :=
      new_id ▸ updated.rows
    refine h.explains_put found placed later new_id patched.table_eq fun written => ?_
    have written_before : current.segment.isMaterialized = true := by
      rw [← written]
      exact (congrArg Segment.isMaterialized patched.segment_eq).symm
    exact patched.isExplained (h.explains id current found written_before) later shown
  · have current_id := h.regular.sound.indexed.id_of_get? found
    have placed : s'.catalog.rows = Assoc.put id { current with version } s.catalog.rows :=
      current_id ▸ rows
    refine h.explains_put found placed later current_id rfl fun written => ?_
    have unchanged : w.revised (some current) (some { current with version }) = w :=
      w.revised_same rfl rfl rfl
    rw [unchanged]
    exact (h.explains id current found written).of_mark later rfl

/-! ## Deleting and running rules -/

/-- The mark of a table that is dropped goes with the row, or both stay. -/
theorem Watched.explains_deleteLocked (h : Watched setup s w)
    (stored : s.catalog.get? current.id = some current) :
    (deleteLocked current).Traces s w (fun _ => State.Explains) State.Explains := by
  unfold deleteLocked
  rw [traces_bind, traces_call]
  by_cases refused : s.engine.failingDrops.contains current.segment.table = true
  · simp only [State.perform, Trail.note, Engine.dropTable, if_pos refused]
    exact (traces_throw _).mpr h.explains
  · simp only [State.perform, Trail.note, Engine.dropTable, if_neg refused]
    rw [traces_check, Program.traces_call_of rfl, State.perform_removeRow (by exact h.faultless),
      Catalog.remove_eq stored]
    exact h.explains.erase (show _ = Assoc.erase current.id s.catalog.rows from rfl)
      (fun _ shown => shown) fun a x other found =>
        Trail.set_of_ne _ _ (h.regular.table_ne stored found other)

theorem Watched.explains_delete (h : Watched setup s w) (id : RuleId) :
    (deleteRule setup id).outcome.Traces s w fun _ => State.Explains := by
  suffices explains : (deleteRule setup id).Traces s w (fun _ => State.Explains) State.Explains from
    explains.outcome fun _ _ _ h => h
  unfold deleteRule
  rw [traces_bind, traces_call_of rfl]
  split
  · exact (traces_throw _).mpr h.explains
  · next current found =>
    have current_mem : current ∈ s.catalog.list := List.mem_of_find?_eq_some found
    have stored := h.regular.sound.indexed.mem_list.mp current_mem
    dsimp only
    split
    · exact (traces_throw _).mpr h.explains
    · rw [traces_bind, traces_call_of rfl, traces_bind, traces_call_of rfl, traces_bind, traces_of]
      -- Jobs and locks have no bearing on rows and tables.
      have h₂ : Watched setup
          (((s.perform .listRows).2.perform (.removeJob id)).2.perform (.lock id)).2 w :=
        ⟨h.regular, ⟨h.healthy.answers, h.healthy.lives, h.healthy.writes⟩, h.faultless, h.agrees,
          h.explains⟩
      refine Traces.outcome ((h₂.explains_deleteLocked stored).mono (fun removed s₃ w₃ h₃ => ?_)
        fun _ _ h₃ => h₃) fun failure s₃ w₃ h₃ => ?_
      · rw [traces_bind, traces_call_of rfl, traces_bind, traces_call_of rfl, traces_pure]
        exact (h₃.perform (r := .emit { kind := .ruleDeleted, rule := id }) rfl).perform rfl
      · have rescheduled : (schedule setup.whileWaiting current.rule).Asks fun r =>
            r.ofSchedule = true := schedule_asks (fun _ made => made) _
        rw [traces_bind, traces_of]
        refine (rescheduled.outcome.traces State.Explains ?_ h₃).mono fun _ s₄ w₄ h₄ => ?_
        · intro r s w made h
          rw [Trail.note_eq (Request.leavesTables_of_ofChange (r.ofChange_of_ofSchedule made))]
          exact h.perform (Request.leavesCatalog_of_ofSchedule made)
        · rw [traces_bind, traces_call_of rfl, traces_throw]
          exact h₄.perform rfl

theorem Watched.explains_pass (h : Watched setup s w) (running : Setup) :
    (runPass running).Traces s w fun _ => State.Explains :=
  (runPass_explains h.regular.sound.indexed h.regular.tablesDistinct h.explained).mono
    fun _ _ _ h₁ => h₁.explains

theorem Watched.explains_runByHand (h : Watched setup s w) (id : RuleId) :
    ((Operation.runByHand id).follow setup (s, w)).1.Explains
      ((Operation.runByHand id).follow setup (s, w)).2 := by
  have asked : (trigger setup id).outcome.Traces s w fun _ =>
      Explained s.catalog s.engine.transactions := by
    refine (trigger_asks (fun _ made => made) id).outcome.traces _ ?_ h.explained
    intro r s w made h
    have kept := Request.leavesData_of_ofTrigger made
    rw [Trail.note_eq (Request.leavesTables_of_leavesData kept)]
    exact h.perform kept
  have ran : Explained s.catalog s.engine.transactions
      ((Operation.runByHand id).follow setup (s, w)).1
      ((Operation.runByHand id).follow setup (s, w)).2 :=
    List.foldlRecOn
      (motive := fun x : State × Trail => Explained s.catalog s.engine.transactions x.1 x.2) _ _
      (Program.traces_follow asked) fun x hx run _ => Program.traces_follow
        (manualRun_explains h.regular.sound.indexed h.regular.tablesDistinct hx run)
  exact ran.explains

/-! ## Systems in which nothing fails -/

/-- An operation leaves all tables explained. -/
theorem Watched.operation (h : Watched setup s w) (operation : Operation) :
    Watched setup (operation.follow setup (s, w)).1 (operation.follow setup (s, w)).2 where
  regular := by
    rw [operation.follow_fst]
    exact operation.apply_regular h.regular
  healthy := by
    refine operation.follow_keeps (fun s _ => s.engine.Healthy) (fun r s _ healthy => ?_)
      (fun _ _ _ _ healthy => healthy) h.healthy
    obtain ⟨answers, lives, writes, -⟩ := s.perform_switches r
    exact ⟨answers.trans healthy.answers, lives.trans healthy.lives,
      writes.trans healthy.writes⟩
  faultless := operation.follow_keeps (fun s _ => s.faults = {})
    (fun r _ _ faultless => State.perform_faultless faultless r)
    (fun _ _ _ _ faultless => faultless) h.faultless
  agrees := operation.follow_keeps (fun s w => w.Agrees s) (fun r _ _ agrees => agrees.note r)
    (fun s w old new agrees table => by rw [w.revised_written, agrees table]) h.agrees
  explains := by
    cases operation with
    | create draft => exact Program.traces_follow (h.explains_create draft)
    | update id patch => exact h.explains_update id patch
    | delete id => exact Program.traces_follow (h.explains_delete id)
    | pass => exact Program.traces_follow (h.explains_pass setup)
    | runByHand id => exact h.explains_runByHand id

theorem Tracked.watched (h : Tracked setup s w) : Watched setup s w := by
  induction h with
  | start clock engine healthy empty =>
    refine ⟨.empty, healthy, rfl, fun table => ?_, fun id e found => ?_⟩
    · simp [Setup.start, Engine.table?, empty]
    · cases found
  | apply hasRuntime operation _ ih =>
    have running : Watched { setup with hasRuntime } _ _ :=
      ⟨ih.regular, ih.healthy, ih.faultless, ih.agrees, ih.explains⟩
    have after := running.operation operation
    exact ⟨after.regular, after.healthy, after.faultless, after.agrees, after.explains⟩
  | arrive transactions _ ih =>
    exact ⟨ih.regular, ⟨ih.healthy.answers, ih.healthy.lives, ih.healthy.writes⟩,
      ih.faultless, ih.agrees, ih.explains⟩

/-- Any operations can be applied one after the other. -/
theorem Tracked.followAll {x : State × Trail} (h : Tracked setup x.1 x.2)
    (operations : List Operation) :
    Tracked setup (operations.foldl (Operation.follow setup) x).1
      (operations.foldl (Operation.follow setup) x).2 :=
  List.foldlRecOn (motive := fun x : State × Trail => Tracked setup x.1 x.2) _ _ h
    fun _ hx operation _ => .apply setup.hasRuntime operation hx

/-- In a system in which nothing fails, every table that was written was written last as its row
says, or the source in the row has changed since then. In that case the rule is due, if it is active
and its schedule has not changed after the source: it is to run at a time that the clock has already
shown, which is not in the future unless the clock goes back. -/
theorem stale_tables_are_due {setup : Setup} {s : State} {w : Trail} (tracked : Tracked setup s w) :
    w.Agrees s ∧ ∀ e ∈ s.catalog.list, e.segment.lastRefreshedAt.isSome = true →
      e.IsComputed w ∨
        (w e.segment.table).standing ≠ .current ∧
          (e.rule.active = true → (w e.segment.table).standing ≠ .moved →
            ∃ t, e.rule.nextRunAt = some t ∧ s.clock.HasShown t ∧
              (s.clock.NeverGoesBack →
                t ≤ s.clock.read.1 ∧ e.needsRefresh s.clock.read.1 = true)) := by
  have watched := tracked.watched
  refine ⟨watched.agrees, fun e he written => ?_⟩
  have explained :=
    watched.explains e.id e (watched.regular.sound.indexed.mem_list.mp he) written
  unfold Entry.IsExplained at explained
  cases standing : (w e.segment.table).standing with
  | current =>
    rw [standing] at explained
    exact .inl explained
  | changed =>
    rw [standing] at explained
    refine .inr ⟨by simp, fun active _ => ?_⟩
    obtain ⟨t, due, shown⟩ := explained active
    refine ⟨t, due, shown, fun forward => ?_⟩
    have passed := forward.le_read shown
    exact ⟨passed, by simp [Entry.needsRefresh, active, due, passed]⟩
  | moved => exact .inr ⟨by simp, fun _ unmoved => absurd rfl unmoved⟩

/-- The system after a rule was created and run, and then changed by some patches. -/
private def changedBy (patches : List RulePatch) : State × Trail :=
  let created : Operation :=
    .create { name := "a", conditions := [.of "transaction_type" "=" (.text "UPI")] }
  let updates := patches.map (Operation.update (RuleId.ofNat 1))
  ([created, .pass] ++ updates).foldl (Operation.follow {})
    (({} : Setup).start (.still ⟨0, 0⟩) {}, fun _ => {})

private theorem tracked_changedBy (patches : List RulePatch) :
    Tracked {} (changedBy patches).1 (changedBy patches).2 :=
  Tracked.followAll (x := (_, _))
    (.start _ _ ⟨rfl, rfl, rfl⟩ rfl) _

private theorem changedBy_neverGoesBack (patches : List RulePatch) :
    (changedBy patches).1.clock.NeverGoesBack :=
  List.foldlRecOn (motive := fun x : State × Trail => x.1.clock.NeverGoesBack) _ _
    (Clock.still_neverGoesBack _) fun _ forward operation _ =>
      operation.follow_keeps (fun s _ => s.clock.NeverGoesBack)
        (fun r s _ forward => by rwa [Clock.NeverGoesBack, s.perform_reading r])
        (fun _ _ _ _ forward => forward) forward

/-- A patch with other conditions. -/
private def otherConditions : RulePatch :=
  { conditions := some [.of "transaction_type" "=" (.text "CARD")] }

/-- What a row and its mark say about the last run of a rule: it was run, and the source in the row
was another then. -/
private def Entry.wasRunOtherwise (w : Trail) (e : Entry) : Bool :=
  e.segment.lastRefreshedAt.isSome &&
    decide (((w e.segment.table).written.bind fun written =>
      (written.1.catalog.get? e.id).map fun e₀ => e₀.segment.source) ≠ some e.segment.source)

private theorem Entry.not_isComputed (h : e.wasRunOtherwise w = true) :
    e.segment.lastRefreshedAt.isSome = true ∧ ¬e.IsComputed w := by
  simp only [wasRunOtherwise, Bool.and_eq_true, decide_eq_true_eq] at h
  refine ⟨h.1, ?_⟩
  rintro ⟨s₀, e₀, rows, written, found, source, -⟩
  refine h.2 ?_
  rw [written, Option.bind_some, found, Option.map_some, source]

theorem stale_tables_are_due_changed :
    ∃ e ∈ (changedBy [otherConditions]).1.catalog.list,
      ¬e.IsComputed (changedBy [otherConditions]).2 ∧ ∃ t, e.rule.nextRunAt = some t ∧
        t ≤ (changedBy [otherConditions]).1.clock.read.1 ∧
        e.needsRefresh (changedBy [otherConditions]).1.clock.read.1 = true := by
  have changed : (changedBy [otherConditions]).1.catalog.list.any (fun e =>
      e.wasRunOtherwise (changedBy [otherConditions]).2 && e.rule.active &&
        decide (((changedBy [otherConditions]).2 e.segment.table).standing = .changed)) = true := by
    decide +kernel
  obtain ⟨e, he, facts⟩ := List.any_eq_true.mp changed
  simp only [Bool.and_eq_true, decide_eq_true_eq] at facts
  obtain ⟨⟨otherwise, active⟩, standing⟩ := facts
  obtain ⟨written, stale⟩ := e.not_isComputed otherwise
  have explained := (stale_tables_are_due (tracked_changedBy [otherConditions])).2 e he written
  obtain ⟨-, due⟩ := explained.resolve_left stale
  obtain ⟨t, next, -, now⟩ := due active (by rw [standing]; simp)
  exact ⟨e, he, stale, t, next, now (changedBy_neverGoesBack _)⟩

/-- There is a rule whose table is stale and that is not due, so that whoever reads the table does
not refresh it first. -/
private def Unnoticed (x : State × Trail) (active : Bool) : Prop :=
  ∃ e ∈ x.1.catalog.list, e.segment.lastRefreshedAt.isSome = true ∧ ¬e.IsComputed x.2 ∧
    e.rule.active = active ∧ e.needsRefresh x.1.clock.read.1 = false

private theorem unnoticed_of_any {x : State × Trail} {active : Bool}
    (h : x.1.catalog.list.any (fun e => e.wasRunOtherwise x.2 && e.rule.active == active &&
      !e.needsRefresh x.1.clock.read.1) = true) :
    Unnoticed x active := by
  obtain ⟨e, he, facts⟩ := List.any_eq_true.mp h
  simp only [Bool.and_eq_true, beq_iff_eq, Bool.not_eq_true'] at facts
  obtain ⟨⟨otherwise, active⟩, fresh⟩ := facts
  obtain ⟨written, stale⟩ := e.not_isComputed otherwise
  exact ⟨e, he, written, stale, active, fresh⟩

/-- Where the conditions change while the rule is not active, its table is stale and the rule is not
due. An active rule is no longer due when its schedule changes after its conditions. -/
theorem stale_table_unnoticed :
    (Tracked {} (changedBy [{ active := some false }, otherConditions]).1
        (changedBy [{ active := some false }, otherConditions]).2 ∧
      Unnoticed (changedBy [{ active := some false }, otherConditions]) false) ∧
    Tracked {} (changedBy [otherConditions, { schedule := some .weekly }]).1
        (changedBy [otherConditions, { schedule := some .weekly }]).2 ∧
      Unnoticed (changedBy [otherConditions, { schedule := some .weekly }]) true :=
  ⟨⟨tracked_changedBy _, unnoticed_of_any (by decide +kernel)⟩,
    tracked_changedBy _, unnoticed_of_any (by decide +kernel)⟩

end Cohort
