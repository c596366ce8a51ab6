import Cohort.Proofs.Catalog.Soundness
import Cohort.Proofs.Lineage.Collect
import Cohort.Proofs.Manager.Planning
import Cohort.Proofs.Program.Requests

/-!
# What the manager does to the catalogue

Creating, changing and deleting a rule are programs of many requests, and each can fail in
many places. This module says for each of them once and for all what can have become of the
catalogue when it is over.

## Main definitions

* `Mutation` — what a user can change, and `Mutation.program`
* `Created` — a row was added for a draft
* `Patched` — the row that a patch makes of another

## Main results

* `createRule_yields`, `updateRule_yields`, `deleteRule_yields` — the outcome of an operation
-/

namespace Cohort

open Cohort.Action

variable {setup : Setup} {c c' : Catalog} {d : RuleDraft} {e current next : Entry}
  {now : Instant} {patch : RulePatch}

/-! ## Changes -/

/-- What a user can change: a rule is added, changed or taken out. -/
inductive Mutation where
  | create (draft : RuleDraft)
  | update (id : RuleId) (patch : RulePatch)
  | delete (id : RuleId)

/-- The failure that an outcome is, if it is one. -/
def failure? {α : Type} : Except Failure α → Option Failure
  | .ok _ => none
  | .error failure => some failure

/-- The program of a change. It answers with its failure, if there is one. -/
def Mutation.program (setup : Setup) : Mutation → Program (Option Failure)
  | .create draft => (createRule setup draft).outcome >>= fun result => pure (failure? result)
  | .update id patch => (updateRule setup id patch).outcome >>= fun result => pure (failure? result)
  | .delete id => (deleteRule setup id).outcome >>= fun result => pure (failure? result)

theorem run_failure? {α : Type} (a : Action α) (s : State) :
    ((a.outcome >>= fun result => pure (failure? result)).run s).2 = (a.outcome.run s).2 := by
  rw [Program.run_bind, Program.run_pure]

/-- A program that answers with a failure only tells success and failure apart. -/
theorem yields_failure? {α : Type} {a : Action α} {s : State} {good : State → Prop}
    {bad : Failure → State → Prop} :
    (a.outcome >>= fun result => pure (failure? result)).Yields s
        (fun failed s' => failed.elim (good s') fun failure => bad failure s') ↔
      a.Yields s (fun _ => good) bad := by
  simp only [Program.yields_bind, Program.yields_pure, outcome_yields, failure?, Option.elim]

/-! ## Creating a rule -/

/-- A row was added for a draft, under the next free identifier. -/
structure Created (setup : Setup) (d : RuleDraft) (c : Catalog) (now : Instant) (e : Entry)
    (c' : Catalog) : Prop where
  planned : ∃ p, Planned setup c d.conditions [c.nextId] d.composition p ∧
    e = { (d.entry setup c.nextId (Text.trim d.name) now).withPlan p with version := 1 }
  valid : e.validate = .ok ()
  fresh : c.get? e.id = none
  rows : c'.rows = Assoc.put e.id e c.rows

/-- What is asked for when the job of a rule is put in place. -/
def Request.ofSchedule : Request → Bool
  | .removeJob _ | .now | .installJob .. => true
  | _ => false

theorem Request.leavesCatalog_of_ofSchedule {r : Request} (h : r.ofSchedule = true) :
    r.leavesCatalog = true := by
  cases r <;> simp_all [ofSchedule, leavesCatalog]

theorem schedule_asks {P : Request → Prop} (made : ∀ r : Request, r.ofSchedule = true → P r)
    (rule : Rule) : (schedule setup rule).Asks P := by
  unfold schedule
  split
  · exact asks_bind (asks_call (made _ rfl)) fun _ => asks_pure _
  · split
    · exact asks_throw _
    · cases rule.nextRunAt with
      | some next => exact asks_call (made _ rfl)
      | none => exact asks_bind (asks_call (made _ rfl)) fun _ => asks_call (made _ rfl)

/-- Taking out a row fails and changes nothing, or the row is gone. -/
theorem removeRow_cases (s : State) (id : RuleId) :
    (∃ failure, (s.perform (.removeRow id)).1 = .error failure ∧
        (s.perform (.removeRow id)).2.catalog = s.catalog) ∨
      ∃ removed, (s.perform (.removeRow id)).1 = .ok removed ∧
        (s.perform (.removeRow id)).2.catalog.rows = Assoc.erase id s.catalog.rows := by
  simp only [State.perform, State.removeRow]
  split
  · exact .inl ⟨_, rfl, rfl⟩
  · rcases s.catalog.remove_cases id
      with ⟨failure, unchanged⟩ | ⟨current, c', removed, -, hrows, -⟩
    · exact .inl ⟨failure, congrArg Prod.fst unchanged, congrArg Prod.snd unchanged⟩
    · rw [removed]
      exact .inr ⟨current, rfl, hrows⟩

/-- Adding a row fails and changes nothing, or it adds a valid row under a fresh identifier. -/
theorem insertRow_yields (e : Entry) (s : State) :
    (check (Program.call (.insertRow e))).Yields s
      (fun stored s' => stored = { e with version := 1 } ∧ stored.validate = .ok () ∧
        s.catalog.get? stored.id = none ∧
        s'.catalog.rows = Assoc.put stored.id stored s.catalog.rows)
      fun _ s' => s'.catalog = s.catalog := by
  rw [yields_check, Program.yields_call]
  simp only [State.perform]
  rcases s.catalog.insert_cases e
    with ⟨failure, unchanged⟩ | ⟨c', inserted, valid, fresh, -, hrows, -⟩
  · rw [unchanged]
  · rw [inserted]
    exact ⟨rfl, valid, fresh, hrows⟩

/-- Whether it succeeds or fails, scheduling a rule leaves the catalogue alone. -/
theorem schedule_yields (rule : Rule) (s : State) :
    (schedule setup rule).outcome.Yields s fun _ s' => s'.catalog = s.catalog := by
  have asks : (schedule setup rule).Asks fun r => r.leavesCatalog = true :=
    schedule_asks (fun _ => Request.leavesCatalog_of_ofSchedule) rule
  exact Program.yields_iff.mpr (asks.outcome.run_catalog s)

/-- A new row stays as it is, or it is removed again because of a failure. -/
theorem commitCreate_yields (stored : Entry) (warnings : List Warning) (s : State) :
    (commitCreate setup stored warnings).Yields s
      (fun outcome s' => outcome.entry = stored ∧ s'.catalog = s.catalog)
      fun _ s' => s'.catalog = s.catalog ∨
        s'.catalog.rows = Assoc.erase stored.id s.catalog.rows := by
  unfold commitCreate
  rw [yields_bind, yields_of]
  refine (schedule_yields stored.rule s).mono fun result s₁ same => ?_
  cases result with
  | ok _ =>
    dsimp only
    rw [yields_bind, yields_call, yields_pure]
    exact ⟨rfl, same⟩
  | error failure =>
    dsimp only
    rw [yields_bind, yields_call, yields_throw]
    rw [← same]
    -- The row is removed again, unless that fails too.
    rcases removeRow_cases s₁ stored.id with ⟨_, -, kept⟩ | ⟨_, -, hrows⟩
    · exact .inl kept
    · exact .inr hrows

/-- A new rule has a row afterwards. If there is a failure, there are the rows from before, unless
the new row could not be removed again. -/
theorem createRule_yields (setup : Setup) (d : RuleDraft) (s : State) :
    (createRule setup d).Yields s
      (fun outcome s' => Created setup d s.catalog s.clock.read.1 outcome.entry s'.catalog)
      fun _ s' => s'.catalog.rows = s.catalog.rows ∨
        ∃ e, Created setup d s.catalog s.clock.read.1 e s'.catalog := by
  unfold createRule
  dsimp only
  split
  -- The name is empty.
  · exact (yields_throw _).mpr (.inl rfl)
  rw [yields_bind, yields_call]
  split
  -- The name is taken.
  · exact (yields_throw _).mpr (.inl rfl)
  rw [yields_bind, yields_call, yields_bind]
  simp only [State.perform, Catalog.allocate]
  refine (plan_yields d.composition _).mono ?_ ?_
  · rintro p s₁ ⟨hs₁, planned⟩
    have hnow : (s₁.perform .now).1 = s.clock.read.1 := by rw [hs₁]; rfl
    have hget? : (s₁.perform .now).2.catalog.get? = s.catalog.get? := by rw [hs₁]; rfl
    have hrows : (s₁.perform .now).2.catalog.rows = s.catalog.rows := by rw [hs₁]; rfl
    rw [yields_bind, yields_call, yields_bind, hnow]
    refine (insertRow_yields _ _).mono ?_ ?_
    · rintro stored s₂ ⟨hstored, valid, fresh, added⟩
      -- Planning and reading the time have changed no row.
      rw [hget?] at fresh
      rw [hrows] at added
      have created : ∀ c' : Catalog, c' = s₂.catalog →
          Created setup d s.catalog s.clock.read.1 stored c' := by
        rintro c' rfl
        exact ⟨⟨p, planned.of_rows_eq rfl, hstored⟩, valid, fresh, added⟩
      refine (commitCreate_yields stored _ s₂).mono ?_ ?_
      · rintro outcome s₃ ⟨rfl, same⟩
        exact created _ same
      · rintro _ s₃ (same | removed)
        · exact .inr ⟨stored, created _ same⟩
        -- The row was free before, so removing it gives back the rows from before.
        · refine .inl (removed.trans ?_)
          rw [added]
          exact Assoc.erase_put_of_get?_eq_none fresh
    · intro _ s₂ same
      exact .inl ((congrArg Catalog.rows same).trans hrows)
  · rintro _ _ rfl
    exact .inl rfl

/-! ## Changing a rule -/

/-- The row that a patch makes of another. Where the conditions stay the same the plan does too.
Where they change nothing depends on the rule, and it is planned anew. -/
inductive Patched (setup : Setup) (c : Catalog) (current : Entry) (patch : RulePatch)
    (now : Instant) : Entry → Prop
  | plain {base : Entry} (applied : patch.applyPlain now current = .ok base)
      (same : patch.changedConditions current.rule = none) :
      Patched setup c current patch now (base.touched now)
  | replanned {base : Entry} {conditions : List Condition} {p : Plan}
      (applied : patch.applyPlain now current = .ok base)
      (changed : patch.changedConditions current.rule = some conditions)
      (free : dependents c.list current.id = [])
      (planned : Planned setup c conditions [current.id] current.rule.keptComposition p) :
      Patched setup c current patch now (((base.withPlan p).dueAt now).touched now)

/-- What becomes of an entry by the members of a patch that have no bearing on its segment. -/
theorem applyPlain_members {base : Entry} (h : patch.applyPlain now current = .ok base) :
    base = { current with
      rule :=
        { current.rule with
          name := (patch.name.map Text.trim).getD current.rule.name
          description := patch.description <|> current.rule.description
          schedule := patch.schedule.getD current.rule.schedule
          active := patch.active.getD current.rule.active
          nextRunAt :=
            if patch.active.getD current.rule.active && !current.rule.active then some now
            else if patch.schedule.getD current.rule.schedule = current.rule.schedule then
              current.rule.nextRunAt
            else some ((patch.schedule.getD current.rule.schedule).nextRun now) } } := by
  unfold RulePatch.applyPlain at h
  cases hname : patch.name with
  | none =>
    simp only [hname] at h
    exact (Except.ok.inj h).symm
  | some name =>
    simp only [hname] at h
    split at h
    · cases h
    · exact (Except.ok.inj h).symm

/-- A new name is trimmed. -/
theorem applyPlain_eq {base : Entry} (h : patch.applyPlain now current = .ok base) :
    ∃ name, (name = current.rule.name ∨ ∃ given, name = Text.trim given) ∧
      base = { current with
        rule :=
          { current.rule with
            name
            description := patch.description <|> current.rule.description
            schedule := patch.schedule.getD current.rule.schedule
            active := patch.active.getD current.rule.active
            nextRunAt :=
              if patch.active.getD current.rule.active && !current.rule.active then some now
              else if patch.schedule.getD current.rule.schedule = current.rule.schedule then
                current.rule.nextRunAt
              else some ((patch.schedule.getD current.rule.schedule).nextRun now) } } := by
  refine ⟨_, ?_, applyPlain_members h⟩
  cases patch.name with
  | none => exact .inl rfl
  | some name => exact .inr ⟨name, rfl⟩

/-- A patch leaves the segment alone, and the identifier; a new name is trimmed. -/
theorem applyPlain_eq_ok {base : Entry} (h : patch.applyPlain now current = .ok base) :
    base.segment = current.segment ∧ base.id = current.id ∧
      (base.rule.name = current.rule.name ∨ ∃ name, base.rule.name = Text.trim name) := by
  obtain ⟨name, names, rfl⟩ := applyPlain_eq h
  exact ⟨rfl, rfl, names⟩

theorem replan_yields (conditions : List Condition) (s : State) :
    (replan setup current.rule now conditions next).Yields s
      (fun planned s' => s' = s ∧ dependents s.catalog.list current.id = [] ∧
        ∃ p, Planned setup s.catalog conditions [current.id] current.rule.keptComposition p ∧
          planned = (next.withPlan p).dueAt now)
      fun _ s' => s' = s := by
  unfold replan
  rw [yields_bind, yields_call]
  dsimp only
  split
  -- Other rules depend on this one.
  · exact (yields_throw _).mpr rfl
  · next free =>
    simp only [Bool.not_eq_true', Bool.not_eq_false, List.isEmpty_iff] at free
    rw [yields_bind]
    refine (plan_yields _ s).mono ?_ fun _ _ same => same
    rintro p s₁ ⟨rfl, planned⟩
    rw [yields_pure]
    exact ⟨rfl, free, p, planned, rfl⟩

/-- Of the state a patch takes nothing but the time. -/
theorem applyPatch_yields (current : Entry) (patch : RulePatch) (s : State) :
    (applyPatch setup current patch).Yields s
      (fun result s' => s' = { s with clock := s.clock.read.2 } ∧
        Patched setup s.catalog current patch s.clock.read.1 result.1)
      fun _ s' => s' = { s with clock := s.clock.read.2 } := by
  unfold applyPatch
  rw [yields_bind, yields_call, yields_bind, yields_check, Program.yields_pure]
  simp only [State.perform]
  cases applied : patch.applyPlain s.clock.read.1 current with
  | error failure => trivial
  | ok base =>
    dsimp only
    split
    · next same =>
      rw [yields_pure]
      exact ⟨rfl, .plain applied same⟩
    · next conditions changed =>
      rw [yields_bind]
      refine (replan_yields conditions _).mono ?_ fun _ _ same => same
      rintro planned s₁ ⟨hs₁, free, p, found, rfl⟩
      rw [yields_pure]
      exact ⟨hs₁, .replanned applied changed free (found.of_rows_eq rfl)⟩

/-- Replacing a row fails and changes nothing, or a valid row is put in place of one of the
expected version. -/
theorem replaceRow_cases (s : State) (e : Entry) (expected : Nat) :
    (∃ failure, (s.perform (.replaceRow e expected)).1 = .error failure ∧
        (s.perform (.replaceRow e expected)).2.catalog = s.catalog) ∨
      ∃ seen stored, (s.perform (.replaceRow e expected)).1 = .ok stored ∧
        stored = { e with version := expected + 1 } ∧ stored.validate = .ok () ∧
        s.catalog.get? stored.id = some seen ∧ seen.version = expected ∧
        (s.perform (.replaceRow e expected)).2.catalog.rows =
          Assoc.put stored.id stored s.catalog.rows := by
  simp only [State.perform, State.replaceRow]
  split
  · exact .inl ⟨_, rfl, rfl⟩
  · rcases s.catalog.replace_cases e expected
      with ⟨failure, unchanged⟩ | ⟨seen, c', replaced, valid, found, hversion, -, hrows, -⟩
    · exact .inl ⟨failure, congrArg Prod.fst unchanged, congrArg Prod.snd unchanged⟩
    · rw [replaced]
      exact .inr ⟨seen, _, rfl, rfl, valid, found, hversion, hrows⟩

/-- A changed row stays as it is. Because of a failure the row from before can come back, if it
still passes. -/
theorem commitUpdate_yields (current stored : Entry) (warnings : List Warning) (s : State) :
    (commitUpdate setup current stored warnings).Yields s
      (fun outcome s' => outcome.entry = stored ∧ s'.catalog = s.catalog)
      fun _ s' => s'.catalog = s.catalog ∨
        ∃ restored, restored = { current with version := stored.version + 1 } ∧
          restored.validate = .ok () ∧
          s'.catalog.rows = Assoc.put restored.id restored s.catalog.rows := by
  unfold commitUpdate
  rw [yields_bind, yields_of]
  refine (schedule_yields stored.rule s).mono fun result s₁ same => ?_
  cases result with
  | ok _ =>
    dsimp only
    rw [yields_bind, yields_call, yields_pure]
    exact ⟨rfl, same⟩
  | error failure =>
    dsimp only
    rw [yields_bind, yields_call]
    -- The row from before is put back, unless that fails too.
    rcases replaceRow_cases s₁ current stored.version
      with ⟨_, failed, unchanged⟩ | ⟨_, restored, replaced, hrestored, valid, -, -, hrows⟩
    · rw [failed]
      dsimp only
      rw [yields_throw]
      exact .inl (unchanged.trans same)
    · rw [replaced]
      dsimp only
      rw [yields_bind, yields_of]
      refine (schedule_yields restored.rule _).mono fun _ s₂ kept => ?_
      rw [yields_throw, kept, hrows, same]
      exact .inr ⟨restored, hrestored, valid, rfl⟩

namespace Patched

theorem id_eq (h : Patched setup c current patch now next) : next.id = current.id := by
  cases h with
  | plain applied => exact (applyPlain_eq_ok applied).2.1
  | replanned applied => exact (applyPlain_eq_ok applied).2.1

theorem table_eq (h : Patched setup c current patch now next) :
    next.segment.table = current.segment.table := by
  cases h with
  | plain applied => exact congrArg Segment.table (applyPlain_eq_ok applied).1
  | replanned applied =>
    have same := congrArg Segment.table (applyPlain_eq_ok applied).1
    exact same

theorem name_cases (h : Patched setup c current patch now next) :
    next.rule.name = current.rule.name ∨ ∃ name, next.rule.name = Text.trim name := by
  cases h with
  | plain applied => exact (applyPlain_eq_ok applied).2.2
  | replanned applied => exact (applyPlain_eq_ok applied).2.2

/-- The dependencies stay the same, or nothing depends on the rule and the new ones are rules of the
catalogue. -/
theorem parents_cases (h : Patched setup c current patch now next) (indexed : c.Indexed) :
    next.parents = current.parents ∨
      dependents c.list current.id = [] ∧ ∀ p ∈ next.parents, (c.get? p).isSome := by
  cases h with
  | plain applied =>
    have := congrArg Segment.source (applyPlain_eq_ok applied).1
    exact .inl (congrArg SegmentSource.parents this)
  | replanned applied _ free planned =>
    exact .inr ⟨free, fun p hp => (planned.parents indexed hp).1⟩

end Patched

/-- The row of a rule was replaced by what a patch makes of it at some time. -/
structure Updated (setup : Setup) (id : RuleId) (patch : RulePatch) (c : Catalog) (now : Instant)
    (stored : Entry) (c' : Catalog) : Prop where
  patched : ∃ current next, c.get? id = some current ∧
    Patched setup c current patch now next ∧
    stored = { next with version := current.version + 1 } ∧
    ∃ seen, c.get? stored.id = some seen ∧ seen.version = current.version
  valid : stored.validate = .ok ()
  rows : c'.rows = Assoc.put stored.id stored c.rows

/-- The row of a rule was replaced by what a patch makes of it at a time that the clock has
shown. -/
def UpdateDone (setup : Setup) (id : RuleId) (patch : RulePatch) (c : Catalog) (stored : Entry)
    (s' : State) : Prop :=
  ∃ now, s'.clock.HasShown now ∧ Updated setup id patch c now stored s'.catalog

/-- What a failed change can leave of the catalogue: the rows from before, the row from before with
a higher version, or the new row if the old one could not be put back. -/
def UpdateFailed (setup : Setup) (id : RuleId) (patch : RulePatch) (c : Catalog) (s' : State) :
    Prop :=
  s'.catalog.rows = c.rows ∨ (∃ stored, UpdateDone setup id patch c stored s') ∨
    ∃ current restored version, c.get? id = some current ∧ restored = { current with version } ∧
      restored.validate = .ok () ∧ s'.catalog.rows = Assoc.put restored.id restored c.rows

theorem updateOnce_yields {id : RuleId} {again : Failure → Action RuleOutcome} (s : State)
    (again_yields : ∀ failure s', s'.catalog = s.catalog → (again failure).Yields s'
      (fun outcome s'' => UpdateDone setup id patch s.catalog outcome.entry s'')
      fun _ s'' => UpdateFailed setup id patch s.catalog s'') :
    (updateOnce setup id patch again).Yields s
      (fun outcome s' => UpdateDone setup id patch s.catalog outcome.entry s')
      fun _ s' => UpdateFailed setup id patch s.catalog s' := by
  unfold updateOnce
  rw [yields_bind, yields_call]
  cases found : (s.perform (.getRow id)).1 with
  | none => exact (yields_throw _).mpr (.inl rfl)
  | some current =>
    dsimp only
    rw [yields_bind]
    refine (applyPatch_yields current patch _).mono ?_ ?_
    · rintro ⟨next, warnings⟩ s₁ ⟨hs₁, patched⟩
      have same : s₁.catalog = s.catalog := by rw [hs₁]; rfl
      dsimp only at patched ⊢
      rw [yields_bind, yields_call]
      rcases replaceRow_cases s₁ next current.version
        with ⟨failure, failed, unchanged⟩ |
          ⟨seen, stored, replaced, hstored, valid, hseen, hversion, hrows⟩
      · rw [failed]
        dsimp only
        split
        -- The row was changed meanwhile.
        · exact again_yields _ _ (unchanged.trans same)
        · exact (yields_throw _).mpr (.inl (congrArg Catalog.rows (unchanged.trans same)))
      · rw [replaced]
        dsimp only
        have updated : Updated setup id patch s.catalog s.clock.read.1 stored
            (s₁.perform (.replaceRow next current.version)).2.catalog := by
          rw [same] at hseen hrows
          exact ⟨⟨current, next, found, patched, hstored, seen, hseen, hversion⟩, valid, hrows⟩
        have shown : (s₁.perform (.replaceRow next current.version)).2.clock.HasShown
            s.clock.read.1 := by
          refine State.perform_hasShown ?_ _
          rw [hs₁]
          exact s.clock.hasShown_read
        refine ((commitUpdate_yields current stored warnings _).and_keeps
          (fun s' => s'.clock.HasShown s.clock.read.1)
          (fun r _ earlier => State.perform_hasShown earlier r) shown).mono ?_ ?_
        · rintro outcome s₂ ⟨⟨rfl, kept⟩, shown₂⟩
          exact ⟨_, shown₂, kept ▸ updated⟩
        · rintro _ s₂ ⟨kept | ⟨restored, hrestored, restored_valid, restored_rows⟩, shown₂⟩
          · exact .inr (.inl ⟨stored, _, shown₂, kept ▸ updated⟩)
          · refine .inr (.inr ⟨current, restored, _, found, hrestored, restored_valid, ?_⟩)
            have same_id : stored.id = restored.id := by
              rw [hstored, hrestored]
              exact patched.id_eq
            rw [restored_rows, updated.rows, same_id, Assoc.put_put]
    · rintro _ s₁ rfl
      exact .inl rfl

/-- A changed rule has a new row afterwards, however many attempts it took. -/
theorem updateRule_yields (setup : Setup) (id : RuleId) (patch : RulePatch) (s : State) :
    (updateRule setup id patch).Yields s
      (fun outcome s' => UpdateDone setup id patch s.catalog outcome.entry s')
      fun _ s' => UpdateFailed setup id patch s.catalog s' := by
  -- An attempt that is repeated has left the catalogue as it was.
  have within : ∀ (more : Nat) (s' : State), s'.catalog = s.catalog →
      (updateWithin setup id patch more).Yields s'
        (fun outcome s'' => UpdateDone setup id patch s.catalog outcome.entry s'')
        fun _ s'' => UpdateFailed setup id patch s.catalog s'' := by
    intro more
    induction more with
    | zero =>
      intro s' same
      rw [← same]
      refine updateOnce_yields s' fun failure s'' unchanged => ?_
      exact (yields_throw _).mpr (.inl (congrArg Catalog.rows unchanged))
    | succ fewer ih =>
      intro s' same
      rw [← same]
      refine updateOnce_yields s' fun failure s'' unchanged => ?_
      rw [same]
      exact ih s'' (unchanged.trans same)
  exact within 2 s rfl

/-! ## Deleting a rule -/

/-- A rule on which no other depends was removed. -/
structure Deleted (id : RuleId) (c : Catalog) (removed : Entry) (c' : Catalog) : Prop where
  free : dependents c.list id = []
  found : removed ∈ c.list ∧ removed.id = id
  rows : c'.rows = Assoc.erase id c.rows

/-- The part of a deletion that holds the lock removes the row or leaves the catalogue alone. -/
theorem deleteLocked_yields (current : Entry) (s : State) :
    (deleteLocked current).Yields s
      (fun _ s' => s'.catalog.rows = Assoc.erase current.id s.catalog.rows)
      fun _ s' => s'.catalog = s.catalog := by
  unfold deleteLocked
  rw [yields_bind, yields_call]
  split
  · exact (yields_throw _).mpr rfl
  · rw [yields_check, Program.yields_call]
    rcases removeRow_cases (s.perform (.dropTable current.segment.table)).2 current.id
      with ⟨failure, failed, kept⟩ | ⟨removed, done, hrows⟩
    · rw [failed]
      exact kept
    · rw [done]
      exact hrows

/-- A deleted rule has no row afterwards. If there is a failure, the catalogue is as before. -/
theorem deleteRule_yields (setup : Setup) (id : RuleId) (s : State) :
    (deleteRule setup id).Yields s
      (fun _ s' => ∃ removed, Deleted id s.catalog removed s'.catalog)
      fun _ s' => s'.catalog = s.catalog := by
  unfold deleteRule
  rw [yields_bind, yields_call]
  split
  · exact (yields_throw _).mpr rfl
  · next current found =>
    have current_id : current.id = id := by simpa using List.find?_some found
    have current_mem : current ∈ s.catalog.list := List.mem_of_find?_eq_some found
    dsimp only
    split
    -- Other rules depend on this one.
    · exact (yields_throw _).mpr rfl
    · next free =>
      simp only [Bool.not_eq_true', Bool.not_eq_false, List.isEmpty_iff] at free
      rw [yields_bind, yields_call, yields_bind, yields_call, yields_bind, yields_of,
        outcome_yields]
      refine (deleteLocked_yields current _).mono ?_ ?_
      · intro removed s₁ hrows
        rw [yields_bind, yields_call, yields_bind, yields_call, yields_pure]
        rw [current_id] at hrows
        exact ⟨current, free, ⟨current_mem, current_id⟩, hrows⟩
      · intro failure s₁ kept
        -- The job is put back.
        rw [yields_bind, yields_of]
        refine (schedule_yields current.rule s₁).mono fun _ s₂ same => ?_
        rw [yields_bind, yields_call, yields_throw]
        exact same.trans kept

end Cohort
