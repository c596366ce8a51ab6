import Cohort.Proofs.Run.Course
import Cohort.Proofs.Scheduler.Reports

/-!
# Runs that are called for

A rule is run by a pass for its own sake, or on demand, when a rule that combines it finds that its
row needs a refresh. This module says so of a run by itself, one rule at a time: if a run of the
rule has started within it, then the rule was to be run, or its row was in need as it stood before.
If no run of the rule has started, its row is the same, and if one has and none has failed, its
table is written.

## Main definitions

* `LeftAsIs` — what can change while a pass goes on and no other operation is in progress
* `FailsIn` — a run of the rule is told to have failed
* `CallsFor` — what was told between two states, as far as one rule goes
* `Tells` — what a run by itself tells, as far as one rule goes

## Main results

* `CallsFor.trans` — runs one after the other
* `runWith_within`, `runRule_callsFor` — runs are called for, however deep they are
* `dispatch_tells` — a run of a pass starts a rule at most once, and only if it is called for
-/

namespace Cohort

variable {setup : Setup} {nested : NestedRun} {running refreshed : List RuleId}
  {id a p : RuleId} {c : Catalog} {since : Clock} {s s' s'' x x' : State} {e : Entry} {r : Request}
  {now t : Instant} {told told' : List Event} {called : Prop} {onDemand : Bool}

/-! ## What happens beside a pass -/

/-- What can change while a pass goes on and no other operation is in progress. Failures begin and
end, but rows, tables, transactions, events and the clock are left as they are. -/
structure LeftAsIs (s s' : State) : Prop extends Still s s', LeftAlone s s'

theorem LeftAsIs.refl (s : State) : LeftAsIs s s :=
  { toStill := .refl s, clock := rfl, recorded := fun h => h }

theorem LeftAsIs.goesOn (h : LeftAsIs s s') : s.clock.GoesOn s'.clock := h.clock ▸ .refl _

theorem LeftAsIs.disturbs (h : LeftAsIs s s') : Disturbs true s s' := ⟨h.toStill, fun _ => rfl⟩

/-- Nothing was told, and the row of the rule is as before. -/
structure Rests (id : RuleId) (s s' : State) : Prop where
  log : s'.log = s.log
  clock : s.clock.GoesOn s'.clock
  row : s'.catalog.get? id = s.catalog.get? id

theorem Rests.refl (id : RuleId) (s : State) : Rests id s s := ⟨rfl, .refl _, rfl⟩

theorem Rests.trans (h : Rests id s s') (h' : Rests id s' s'') : Rests id s s'' :=
  ⟨h'.log.trans h.log, h.clock.trans h'.clock, h'.row.trans h.row⟩

theorem LeftAsIs.rests (h : LeftAsIs s s') : Rests id s s' :=
  ⟨h.log, h.goesOn, by rw [h.catalog]⟩

/-- The request tells nothing and leaves the row of the rule as it is. -/
def Request.Passes (id : RuleId) : Request → Prop
  | .emit _ => False
  | .recordRefresh a _ => a ≠ id
  | r => r.leavesCatalog = true

theorem Request.passes_of_ofReading (read : r.ofReading = true) : r.Passes id := by
  cases r <;> simp_all [ofReading, Passes, leavesCatalog]

theorem State.perform_rests (passes : r.Passes id) (s : State) : Rests id s (s.perform r).2 := by
  refine ⟨?_, s.perform_goesOn r, ?_⟩
  · by_cases rows : r.ofRows = true
    · obtain ⟨catalog, faults, same⟩ := s.perform_ofRows rows
      rw [same]
    · cases r <;> simp [Request.ofRows, Request.Passes] at rows passes <;> rfl
  · by_cases kept : r.leavesCatalog = true
    · rw [perform_catalog kept]
    · cases r <;> simp [Request.leavesCatalog, Request.Passes] at kept passes
      case recordRefresh a refresh =>
      rcases s.perform_recordRefresh_outcome a refresh with ⟨_, -, still⟩ | ⟨-, _, -, rows⟩
      · rw [still.catalog]
      · rw [Catalog.get?_of_put_at rows, if_neg passes]

theorem State.perform_log (s : State) (r : Request) :
    ∃ told, (s.perform r).2.log = s.log ++ told := by
  by_cases emits : ∃ event, r = .emit event
  · obtain ⟨event, rfl⟩ := emits
    exact ⟨[event], rfl⟩
  · refine ⟨[], ?_⟩
    rw [List.append_nil]
    by_cases rows : r.ofRows = true
    · obtain ⟨catalog, faults, same⟩ := s.perform_ofRows rows
      rw [same]
    · cases r <;> simp [Request.ofRows] at rows emits <;> rfl

section Program

variable {α β : Type}

theorem Program.follows_rests_bind (id : RuleId) (passes : r.Passes id) {f : r.Answer → Program β}
    {post : β → State → Prop}
    (h : ∀ answer s', Rests id s s' → (f answer).Follows (.among LeftAsIs) s' post) :
    (Program.call r >>= f).Follows (.among LeftAsIs) s post :=
  follows_among_bind fun s₁ left => h _ _ (left.rests.trans (s₁.perform_rests passes))

theorem Action.follows_rests_bind (id : RuleId) (passes : r.Passes id) {f : r.Answer → Action β}
    {good : β → State → Prop} {bad : State → Prop}
    (h : ∀ answer s', Rests id s s' → (f answer).Follows (.among LeftAsIs) s' good bad) :
    (Action.call r >>= f).Follows (.among LeftAsIs) s good bad :=
  follows_among_bind fun s₁ left => h _ _ (left.rests.trans (s₁.perform_rests passes))

theorem Action.Asks.follows_rests {p : Action α} (asks : p.Asks (Request.Passes id)) :
    p.Follows (.among LeftAsIs) s (fun _ => Rests id s) (Rests id s) :=
  asks.follows_among (Rests id s) (fun _ _ x₁ passes before left =>
    (before.trans left.rests).trans (x₁.perform_rests passes)) (.refl id s)

end Program

/-! ## Runs that are called for -/

/-- A run of the rule is told to have failed. -/
def FailsIn (id : RuleId) (told : List Event) : Prop :=
  ∃ event ∈ told, event.rule = id ∧ event.kind.endsRun = true ∧ event.kind ≠ .runSucceeded

instance : Decidable (FailsIn id told) :=
  inferInstanceAs (Decidable (∃ event ∈ told, _))

theorem failsIn_append : FailsIn id (told ++ told') ↔ FailsIn id told ∨ FailsIn id told' := by
  simp only [FailsIn, List.mem_append, or_and_right, exists_or]

theorem failsIn_ofRun (id : RuleId) (failure : Failure) :
    FailsIn id [Event.ofRun id (.error failure)] := by
  refine ⟨_, List.mem_singleton_self _, (Event.kind_ofRun ..).2, (Event.kind_ofRun ..).1, ?_⟩
  unfold Event.ofRun
  split <;> simp_all

/-- The table of the rule was written at some time. -/
def Catalog.Written (c : Catalog) (id : RuleId) : Prop :=
  ∃ e, c.get? id = some e ∧ e.segment.isMaterialized = true

theorem State.perform_recordRefresh_written {refresh : Refresh}
    (done : (s.perform (.recordRefresh id refresh)).1 = .ok ()) :
    (s.perform (.recordRefresh id refresh)).2.catalog.Written id := by
  rcases s.perform_recordRefresh_outcome id refresh
    with ⟨_, refused, -⟩ | ⟨-, current, -, rows⟩
  · rw [refused] at done
    cases done
  · refine ⟨current.refreshed refresh, ?_, rfl⟩
    rw [Catalog.get?_of_put_at rows, if_pos rfl]

theorem State.perform_recordRun_written (h : s.catalog.Written id) (a : RuleId)
    (last next : Instant) : (s.perform (.recordRun a last next)).2.catalog.Written id := by
  simp only [perform, recordRun]
  split
  · exact h
  · rcases s.catalog.modify_cases a (fun e => e.ran last next)
      with ⟨unchanged, -⟩ | ⟨current, c', changed, found, rows, -⟩
    · rw [Catalog.recordRun, unchanged]
      exact h
    · rw [Catalog.recordRun, changed, Catalog.Written, Catalog.get?_of_put_at rows]
      obtain ⟨e, stored, written⟩ := h
      split
      · next same =>
        obtain rfl : current = e := Option.some.inj (found.symm.trans (same ▸ stored))
        exact ⟨_, rfl, written⟩
      · exact ⟨e, stored, written⟩

/-- What was told between two states, as far as one rule goes. If a run of it has started, then this
was called for: by itself, or on demand, as its row needed a refresh at a time that the clock has
shown. If none of its runs has failed, its table is written then. If no run of it has started, its
row is as before. -/
structure CallsFor (onDemand : Bool) (since : Clock) (called : Prop) (id : RuleId) (s : State)
    (told : List Event) (s' : State) : Prop where
  log : s'.log = s.log ++ told
  clock : s.clock.GoesOn s'.clock
  idle : id ∉ startsOf told → s'.catalog.get? id = s.catalog.get? id
  demanded : id ∈ startsOf told → called ∨ onDemand = true ∧ ∃ e t, s.catalog.get? id = some e ∧
    since.ShowsUntil s'.clock t ∧ e.needsRefresh t = true
  settled : id ∈ startsOf told → FailsIn id told ∨ s'.catalog.Written id

namespace CallsFor

theorem of_rests (h : Rests id s s') : CallsFor onDemand since called id s [] s' where
  log := by rw [h.log, List.append_nil]
  clock := h.clock
  idle _ := h.row
  demanded := nofun
  settled := nofun

theorem trans (h : CallsFor onDemand since called id s told s')
    (h' : CallsFor onDemand since called id s' told' s'') :
    CallsFor onDemand since called id s (told ++ told') s'' where
  log := by rw [h'.log, h.log, List.append_assoc]
  clock := h.clock.trans h'.clock
  idle none := by
    rw [startsOf_append, List.mem_append, not_or] at none
    rw [h'.idle none.2, h.idle none.1]
  demanded started := by
    by_cases first : id ∈ startsOf told
    · refine (h.demanded first).imp_right ?_
      rintro ⟨demanded, e, t, found, shown, needs⟩
      exact ⟨demanded, e, t, found, shown.extend h'.clock, needs⟩
    · rw [startsOf_append, List.mem_append] at started
      have same := h.idle first
      exact same ▸ h'.demanded (started.resolve_left first)
  settled started := by
    rw [failsIn_append]
    by_cases second : id ∈ startsOf told'
    · exact (h'.settled second).imp_left .inr
    · rw [startsOf_append, List.mem_append] at started
      refine (h.settled (started.resolve_right second)).imp .inl fun written => ?_
      rwa [Catalog.Written, h'.idle second]

theorem mono {called' : Prop} (h : CallsFor onDemand since called id s told s')
    (weaker : called → called') : CallsFor onDemand since called' id s told s' :=
  { h with demanded := fun started => (h.demanded started).imp_left weaker }

/-- The run of a rule that needs it was called for. -/
theorem demand (h : CallsFor onDemand since called id s told s') (demanded : onDemand = true)
    (need : called → ∃ e, s.catalog.get? id = some e ∧ e.needsRefresh now = true)
    (shown : since.ShowsUntil s'.clock now) : CallsFor onDemand since False id s told s' :=
  { h with
    demanded := fun started => .inr <| by
      rcases h.demanded started with own | other
      · obtain ⟨e, found, needs⟩ := need own
        exact ⟨demanded, e, now, found, shown, needs⟩
      · exact other }

end CallsFor

/-- Runs have gone on between two states, and those of the rule were called for. -/
def MayCallFor (onDemand : Bool) (since : Clock) (called : Prop) (id : RuleId) (s s' : State) :
    Prop :=
  ∃ told, CallsFor onDemand since called id s told s'

namespace MayCallFor

theorem of_rests (h : Rests id s s') : MayCallFor onDemand since called id s s' := ⟨[], .of_rests h⟩

theorem trans (h : MayCallFor onDemand since called id s s')
    (h' : MayCallFor onDemand since called id s' s'') :
    MayCallFor onDemand since called id s s'' := by
  obtain ⟨told, calls⟩ := h
  obtain ⟨told', calls'⟩ := h'
  exact ⟨told ++ told', calls.trans calls'⟩

theorem after_rests (h : MayCallFor onDemand since called id s' s'') (before : Rests id s s') :
    MayCallFor onDemand since called id s s'' := (of_rests before).trans h

theorem then_rests (h : MayCallFor onDemand since called id s s') (after : Rests id s' s'') :
    MayCallFor onDemand since called id s s'' := h.trans (of_rests after)

end MayCallFor

/-- What tells nothing can go on after runs. -/
theorem Action.Asks.follows_mayCallFor {α : Type} {p : Action α}
    (asks : p.Asks (Request.Passes id)) (all : MayCallFor onDemand since called id s s') :
    p.Follows (.among LeftAsIs) s' (fun _ => MayCallFor onDemand since called id s)
      (MayCallFor onDemand since called id s) :=
  asks.follows_rests.mono (fun _ _ rests => all.then_rests rests) fun _ rests =>
    all.then_rests rests

/-- Every nested run leads to runs of the rule only if they are called for. -/
def NestedRun.CallsFor (nested : NestedRun) (onDemand : Bool) (since : Clock) (id : RuleId) :
    Prop :=
  ∀ running refreshed a x, since.GoesOn x.clock →
    (nested running refreshed a).outcome.Follows (.among LeftAsIs) x fun _ =>
      MayCallFor onDemand since (a = id) id x

open Cohort.Action

theorem refreshLocked_callsFor {seen : Entry} (calls : nested.CallsFor onDemand since id)
    (demanded : onDemand = true) (on : since.GoesOn x.clock)
    (found : p = id → x.catalog.get? id = some seen) (needs : seen.needsRefresh now = true)
    (shown : since.ShowsUntil x.clock now) :
    (refreshLocked nested running a p seen refreshed).Follows (.among LeftAsIs) x
      (fun _ => MayCallFor onDemand since False id x) (MayCallFor onDemand since False id x) := by
  unfold refreshLocked
  refine follows_rests_bind id (r := .getRow p) rfl fun row x₁ rests => ?_
  split
  · exact (follows_pure _).mpr (.of_rests rests)
  split
  · exact (follows_pure _).mpr (.of_rests rests)
  refine follows_of_bind.mpr ((calls running refreshed p x₁ (on.trans rests.clock)).mono ?_)
  rintro result x₂ ⟨told, calls⟩
  have all : MayCallFor onDemand since False id x x₂ := by
    refine .after_rests ⟨told, calls.demand demanded (fun own => ⟨seen, ?_, needs⟩) ?_⟩ rests
    · rw [rests.row, found own]
    · exact (shown.extend rests.clock).extend calls.clock
  cases result with
  | ok done => exact (follows_pure _).mpr all
  | error cause => exact (follows_throw _).mpr all

theorem refreshDependency_callsFor (calls : nested.CallsFor onDemand since id)
    (demanded : onDemand = true) (on : since.GoesOn x.clock)
    (shown : since.ShowsUntil x.clock now) :
    (refreshDependency nested running a now refreshed p).Follows (.among LeftAsIs) x
      (fun _ => MayCallFor onDemand since False id x) (MayCallFor onDemand since False id x) := by
  unfold refreshDependency
  split
  · exact (follows_pure _).mpr (.of_rests (.refl id x))
  refine follows_among_bind fun x₁ left => ?_
  have rests : Rests id x (x₁.perform (.getRow p)).2 := left.rests
  cases found : (x₁.perform (.getRow p)).1 with
  | none => exact (follows_pure _).mpr (.of_rests rests)
  | some seen =>
    dsimp only
    split
    · exact (follows_pure _).mpr (.of_rests rests)
    next needed =>
    replace needed : seen.needsRefresh now = true := by simpa using needed
    have own : p = id → x.catalog.get? id = some seen := by
      rintro rfl
      rw [← rests.row]
      exact found
    split
    -- Under a lock that is held already.
    · refine (refreshLocked_callsFor calls demanded (on.trans rests.clock)
        (fun same => rests.row.trans (own same)) needed (shown.extend rests.clock)).mono ?_ ?_
      · exact fun _ x₂ all => all.after_rests rests
      · exact fun x₂ all => all.after_rests rests
    -- Under a lock that is taken for this, and given back whatever the outcome is.
    · refine follows_rests_bind id (r := .lockNested p) rfl fun _ x₂ rests₂ => ?_
      have before := rests.trans rests₂
      have unlocks : ∀ (outcome : Except Failure (List RuleId)) (x₃ : State),
          MayCallFor onDemand since False id x₂ x₃ →
          (Action.call (.unlock p) >>= fun _ => Action.check (pure outcome)).Follows
            (.among LeftAsIs) x₃ (fun _ => MayCallFor onDemand since False id x)
            (MayCallFor onDemand since False id x) := by
        intro outcome x₃ all
        refine follows_rests_bind id (r := .unlock p) rfl fun _ x₄ rests₄ => ?_
        refine follows_check.mpr ((Program.follows_pure _).mpr ?_)
        have unlocked := (all.after_rests before).then_rests rests₄
        cases outcome <;> exact unlocked
      refine follows_of_bind.mpr (Follows.outcome (refreshLocked_callsFor calls demanded
        (on.trans before.clock) (fun same => before.row.trans (own same)) needed
        (shown.extend before.clock)) ?_ ?_)
      · exact fun refreshed' x₃ all => unlocks (.ok refreshed') x₃ all
      · exact fun cause x₃ all => unlocks (.error cause) x₃ all

theorem refreshDependencies_callsFor {dependencies : List RuleId}
    (calls : nested.CallsFor onDemand since id) (demanded : onDemand = true)
    (on : since.GoesOn x.clock) :
    (refreshDependencies nested running a dependencies refreshed).Follows (.among LeftAsIs) x
      (fun _ => MayCallFor onDemand since False id x) (MayCallFor onDemand since False id x) := by
  unfold refreshDependencies
  refine follows_among_bind fun x₁ left => ?_
  have rests : Rests id x (x₁.perform .now).2 := left.rests.trans (x₁.perform_rests (r := .now) rfl)
  have shown : since.ShowsUntil (x₁.perform .now).2.clock (x₁.perform .now).1 :=
    (on.trans left.goesOn).showsUntil
      ⟨x₁.clock.readings, Nat.le_refl _, Nat.lt_succ_self _, rfl⟩
  generalize (x₁.perform .now).1 = now at shown ⊢
  generalize (x₁.perform .now).2 = x₂ at rests shown ⊢
  -- The clock goes on from one operand to the next, and has shown the time of all of them.
  refine (follows_foldlM (fun x' => MayCallFor onDemand since False id x x' ∧
    x₂.clock.GoesOn x'.clock) dependencies ?_ refreshed ⟨.of_rests rests, .refl _⟩).mono
    (fun _ _ kept => kept.1) fun _ kept => kept.1
  rintro refreshed₁ p - x₃ ⟨all, later⟩
  have both : ∀ x₄, MayCallFor onDemand since False id x₃ x₄ →
      MayCallFor onDemand since False id x x₄ ∧ x₂.clock.GoesOn x₄.clock := by
    rintro x₄ ⟨told, more⟩
    exact ⟨all.trans ⟨told, more⟩, later.trans more.clock⟩
  exact (refreshDependency_callsFor calls demanded ((on.trans rests.clock).trans later)
    (shown.extend later)).mono (fun _ => both) both

theorem compute_callsFor (running refreshed : List RuleId) (e : Entry) (started : Instant)
    (calls : nested.CallsFor setup.running.refreshStale since id) (on : since.GoesOn x.clock) :
    (compute setup nested running refreshed e started).Follows (.among LeftAsIs) x
      (fun _ => MayCallFor setup.running.refreshStale since False id x)
      (MayCallFor setup.running.refreshStale since False id x) := by
  have reads : ∀ r : Request, r.ofReading = true → r.Passes id := fun _ =>
    Request.passes_of_ofReading
  unfold compute
  split
  · exact Asks.follows_mayCallFor (asks_bind (computeBase_asks reads _) fun _ => asks_pure _)
      (.of_rests (.refl id x))
  · next dependencies operation residual _ =>
    have combines : ∀ (refreshed' : List RuleId) (x₁ : State),
        MayCallFor setup.running.refreshStale since False id x x₁ →
        (computeComposite e.id dependencies operation residual >>= fun result =>
          pure (result.1, result.2, refreshed') :
            Action (Dataset × Instant × List RuleId)).Follows (.among LeftAsIs) x₁
          (fun _ => MayCallFor setup.running.refreshStale since False id x)
          (MayCallFor setup.running.refreshStale since False id x) := fun _ _ =>
      Asks.follows_mayCallFor (asks_bind (computeComposite_asks reads ..) fun _ => asks_pure _)
    split
    · next demanded =>
      exact (refreshDependencies_callsFor calls demanded on).bind combines
    · exact combines refreshed x (.of_rests (.refl id x))

/-- The run of another rule leaves the row of the rule alone, but for runs that it calls for. -/
theorem materialize_callsFor (calls : nested.CallsFor setup.running.refreshStale since id)
    (other : a ≠ id) (on : since.GoesOn x.clock) :
    (materialize setup nested running refreshed a).Follows (.among LeftAsIs) x
      (fun _ => MayCallFor setup.running.refreshStale since False id x)
      (MayCallFor setup.running.refreshStale since False id x) := by
  unfold materialize
  refine follows_rests_bind id (r := .getRow a) rfl fun row x₁ rests₁ => ?_
  split
  · exact (follows_throw _).mpr (.of_rests rests₁)
  refine follows_rests_bind id (r := .now) rfl fun started x₂ rests₂ => ?_
  have rests := rests₁.trans rests₂
  refine follows_bind.mpr ((compute_callsFor running refreshed _ started calls
    (on.trans rests.clock)).mono ?_ fun x₃ all => all.after_rests rests)
  rintro ⟨rows, asOf, refreshed'⟩ x₃ all
  refine Asks.follows_mayCallFor ?_ (all.after_rests rests)
  refine asks_bind (orFail_asks (Program.asks_call rfl)) fun count => ?_
  refine asks_bind (asks_call rfl) fun finished => ?_
  exact asks_bind (writeMetadata_asks other _) fun _ => asks_pure _

/-- An attempt to write down a refresh. If it succeeds, the table of the rule counts as written. -/
theorem recordRefresh_written {refresh : Refresh} {f : Except Failure Unit → Action Unit}
    (recorded : f (.ok ()) = pure ())
    (refused : ∀ cause x', (f (.error cause)).Follows (.among LeftAsIs) x'
      (fun _ x'' => x''.catalog.Written id) fun _ => True) :
    (Action.call (.recordRefresh id refresh) >>= f).Follows (.among LeftAsIs) x
      (fun _ x' => x'.catalog.Written id) fun _ => True := by
  refine follows_among_bind fun x₁ _ => ?_
  cases answer : (x₁.perform (.recordRefresh id refresh)).1 with
  | ok _ =>
    rw [recorded]
    exact (follows_pure _).mpr (State.perform_recordRefresh_written answer)
  | error cause => exact refused cause _

theorem writeMetadata_written {refresh : Refresh} (more : Nat) :
    (writeMetadata id refresh more).Follows (.among LeftAsIs) x
      (fun _ x' => x'.catalog.Written id) fun _ => True := by
  induction more generalizing x with
  | zero =>
    rw [writeMetadata]
    exact recordRefresh_written rfl fun _ _ => (follows_throw _).mpr trivial
  | succ fewer ih =>
    rw [writeMetadata]
    exact recordRefresh_written rfl fun _ _ => ih

theorem materialize_written :
    (materialize setup nested running refreshed id).Follows (.among LeftAsIs) x
      (fun _ x' => x'.catalog.Written id) fun _ => True := by
  unfold materialize
  refine follows_among_bind fun x₁ _ => ?_
  split
  · exact (follows_throw _).mpr trivial
  refine follows_among_bind fun x₂ _ => ?_
  refine (follows_among_trivially _).bind fun computed x₃ _ => ?_
  refine (follows_among_trivially _).bind fun count x₄ _ => ?_
  refine follows_among_bind fun x₅ _ => ?_
  exact (writeMetadata_written _).bind fun _ _ written => (follows_pure _).mpr written

/-- The log only grows, and the clock goes on. -/
theorem Program.follows_grows {α : Type} (p : Program α) :
    p.Follows (.among LeftAsIs) x fun _ (x' : State) =>
      (∃ told, x'.log = x.log ++ told) ∧ x.clock.GoesOn x'.clock := by
  refine (Program.asks_any p).follows_among (fun x' : State => (∃ told, x'.log = x.log ++ told) ∧
    x.clock.GoesOn x'.clock) ?_ ⟨⟨[], (List.append_nil _).symm⟩, .refl _⟩
  rintro r x' x₁ - ⟨⟨told, log⟩, later⟩ left
  refine ⟨?_, (later.trans left.goesOn).trans (x₁.perform_goesOn r)⟩
  obtain ⟨more, log₁⟩ := x₁.perform_log r
  exact ⟨told ++ more, by rw [log₁, left.log, log, List.append_assoc]⟩

/-- What goes on between the start and the end of a run. -/
structure Within (onDemand : Bool) (since : Clock) (a id : RuleId) (s : State) (inner : List Event)
    (result : Except Failure (Nat × List RuleId)) (s' : State) : Prop where
  log : s'.log = s.log ++ inner
  clock : s.clock.GoesOn s'.clock
  other : a ≠ id → CallsFor onDemand since False id s inner s'
  own : a = id → ∀ done, result = .ok done → s'.catalog.Written id

theorem materialize_within (calls : nested.CallsFor setup.running.refreshStale since id)
    (on : since.GoesOn x.clock) :
    (materialize setup nested running refreshed a).outcome.Follows (.among LeftAsIs) x
      fun result x' => ∃ inner, Within setup.running.refreshStale since a id x inner result x' := by
  by_cases own : a = id
  · subst own
    refine ((Program.follows_grows _).and (follows_check.mp materialize_written)).mono ?_
    rintro result x' ⟨⟨⟨inner, log⟩, later⟩, written⟩
    refine ⟨inner, log, later, fun other => absurd rfl other, ?_⟩
    rintro - done rfl
    exact written
  · have both : ∀ result x', MayCallFor setup.running.refreshStale since False id x x' →
        ∃ inner, Within setup.running.refreshStale since a id x inner result x' := by
      rintro result x' ⟨inner, told⟩
      exact ⟨inner, told.log, told.clock, fun _ => told, fun same => absurd same own⟩
    exact (materialize_callsFor calls own on).outcome (fun _ _ told => both _ _ told)
      fun _ _ told => both _ _ told

/-- The events of another rule say nothing about the rule. -/
theorem CallsFor.emit {event : Event} (other : id ∉ startsOf [event]) (left : LeftAsIs s s') :
    CallsFor onDemand since called id s [event] (s'.perform (.emit event)).2 where
  log := congrArg (· ++ [event]) left.log
  clock := left.goesOn
  idle _ := by
    rw [State.perform_catalog rfl, left.catalog]
  demanded started := absurd started other
  settled started := absurd started other

/-- What a run calls for, with the events of its start and its end. A run of the rule itself was
called for. -/
theorem Within.frame {result : Except Failure (Nat × List RuleId)} {inner : List Event}
    (begins : LeftAsIs s s')
    (h : Within onDemand since a id (s'.perform (.emit { kind := .runStarted, rule := a })).2 inner
      result x)
    (ends : LeftAsIs x x') :
    CallsFor onDemand since (a = id) id s
      ({ kind := .runStarted, rule := a } :: inner ++ [Event.ofRun a (result.map (·.1))])
      (x'.perform (.emit (Event.ofRun a (result.map (·.1))))).2 := by
  by_cases own : a = id
  · subst own
    refine ⟨?_, ?_, fun none => absurd (by simp) none, fun _ => .inl rfl, fun _ => ?_⟩
    · change x'.log ++ _ = _
      rw [ends.log, h.log]
      change s'.log ++ _ ++ inner ++ _ = _
      rw [begins.log]
      simp
    · exact (begins.goesOn.trans h.clock).trans ends.goesOn
    · cases result with
      | error failure => exact .inl (failsIn_append.mpr (.inr (failsIn_ofRun a failure)))
      | ok done =>
        refine .inr ?_
        rw [Catalog.Written, State.perform_catalog rfl, ends.catalog]
        exact h.own rfl done rfl
  · have starts : CallsFor onDemand since False id s [{ kind := .runStarted, rule := a }]
        (s'.perform (.emit { kind := .runStarted, rule := a })).2 :=
      .emit (by simpa using Ne.symm own) begins
    have reports : CallsFor onDemand since False id x [Event.ofRun a (result.map (·.1))]
        (x'.perform (.emit (Event.ofRun a (result.map (·.1))))).2 := .emit (by simp) ends
    exact ((starts.trans (h.other own)).trans reports).mono False.elim

/-- A run of the rule tells that it starts, and if it fails, it tells that too. -/
theorem runWith_within (calls : nested.CallsFor setup.running.refreshStale since id)
    (refreshed : List RuleId) (apart : a ∉ running) (on : since.GoesOn x.clock) :
    (runWith setup nested running refreshed a).outcome.Follows (.among LeftAsIs) x fun result x' =>
      ∃ told, CallsFor setup.running.refreshStale since (a = id) id x told x' ∧
        (a = id → id ∈ startsOf told ∧ ∀ failure, result = .error failure → FailsIn id told) := by
  unfold runWith
  rw [if_neg (by simpa using apart)]
  refine outcome_follows_among_bind fun x₁ begins => ?_
  have on₁ : since.GoesOn (x₁.perform (.emit { kind := .runStarted, rule := a })).2.clock :=
    on.trans begins.goesOn
  refine outcome_follows_of_bind.mpr ((materialize_within calls on₁).mono ?_)
  rintro result x₂ ⟨inner, within⟩
  refine outcome_follows_among_bind fun x₃ ends => ?_
  have framed := within.frame begins ends
  cases result with
  | error failure =>
    refine (Program.follows_pure _).mpr ⟨_, framed, ?_⟩
    rintro rfl
    exact ⟨by simp, fun _ _ => failsIn_append.mpr (.inr (failsIn_ofRun a failure))⟩
  | ok done =>
    refine (Program.follows_pure _).mpr ⟨_, framed, ?_⟩
    rintro rfl
    exact ⟨by simp, nofun⟩

/-- However deep a run goes, runs of the rule are called for. -/
theorem runRule_callsFor (setup : Setup) (since : Clock) (id : RuleId) (depth : Nat) :
    (runRule setup depth).CallsFor setup.running.refreshStale since id := by
  induction depth with
  | zero => exact fun _ _ _ x _ => (Program.follows_pure _).mpr (.of_rests (.refl id x))
  | succ depth ih =>
    intro running refreshed a x on
    by_cases in_progress : a ∈ running
    · rw [runRule, runWith, if_pos (by simpa using in_progress)]
      exact (Program.follows_pure _).mpr (.of_rests (.refl id x))
    · refine (runWith_within ih refreshed in_progress on).mono ?_
      rintro result x' ⟨told, calls, -⟩
      exact ⟨told, calls⟩

/-! ## One run of a pass -/

/-- What a run by itself tells, as far as one rule goes. Within it, the rule starts at most once,
and only if the run is one of this rule or of one that depends on it. -/
structure Tells (setup : Setup) (c : Catalog) (since : Clock) (a id : RuleId) (s : State)
    (told : List Event) (result : Except Failure Nat) (s' : State) : Prop where
  calls : CallsFor setup.running.refreshStale since (a = id) id s told s'
  once : (startsOf told).count id ≤ 1
  reached : id ∈ startsOf told → Relation.ReflTransGen (DependsOn c.list) a id
  starts : a = id → id ∈ startsOf told
  fails : a = id → ∀ failure, result = .error failure → FailsIn id told

theorem execute_tells (setup : Setup) (a id : RuleId) (indexed : c.Indexed) (stands : Stands c x)
    (on : since.GoesOn x.clock) :
    (execute setup a).outcome.Follows (.among LeftAsIs) x fun result x' =>
      ∃ told, Tells setup c since a id x told result x' := by
  have apart : a ∉ ([] : List RuleId) := List.not_mem_nil
  have conducted : (runRule setup (RuleId.count + 1) [] [] a).outcome.Follows
      (.among (Disturbs true)) x fun _ => Proceeds (Reached c [] [] a) x :=
    (runRule_conducted indexed (RuleId.count + 1) [] [] a x stands apart).outcome
      (fun _ _ completes => completes.1.proceeds) fun _ _ proceeds => proceeds
  have within := runWith_within (runRule_callsFor setup since id RuleId.count) [] apart on
  unfold execute
  refine outcome_follows_bind.mpr
    (((conducted.among_fewer fun _ _ => LeftAsIs.disturbs).and within).mono ?_)
  rintro result x' ⟨⟨told, conducts⟩, told', calls, own⟩
  -- Both say what was told between the same two states.
  obtain rfl : told' = told := List.append_cancel_left (calls.log.symm.trans conducts.log)
  have once : (startsOf told').count id ≤ 1 :=
    List.nodup_iff_count_le_one.mp conducts.orderly.once id
  have reached : id ∈ startsOf told' → Relation.ReflTransGen (DependsOn c.list) a id :=
    fun ran => (conducts.orderly.allowed id ran).1
  cases result with
  | error failure =>
    exact ⟨told', calls, once, reached, fun same => (own same).1,
      fun same cause told => (own same).2 cause (by cases told; rfl)⟩
  | ok done =>
    exact (Program.follows_pure _).mpr
      ⟨told', calls, once, reached, fun same => (own same).1, nofun⟩

theorem Request.passes_of_isStill (still : r.isStill = true) : r.Passes id := by
  cases r <;> simp_all [isStill, leavesData, Passes, leavesCatalog]

theorem Tells.after_rests {result : Except Failure Nat}
    (h : Tells setup c since a id s' told result s'') (before : Rests id s s') :
    Tells setup c since a id s told result s'' :=
  { h with calls := by simpa using (CallsFor.of_rests before).trans h.calls }

theorem Tells.then_rests {result : Except Failure Nat}
    (h : Tells setup c since a id s told result s') (after : Rests id s' s'') :
    Tells setup c since a id s told result s'' :=
  { h with calls := by simpa using h.calls.trans (CallsFor.of_rests after) }

/-- Requests that only wait for something, or give it back. -/
theorem Program.follows_aside_bind {β : Type} (id : RuleId) (still : r.isStill = true)
    (stands : Stands c x) {f : r.Answer → Program β} {post : β → State → Prop}
    (h : ∀ answer x', Rests id x x' → Stands c x' →
      (f answer).Follows (.among LeftAsIs) x' post) :
    (Program.call r >>= f).Follows (.among LeftAsIs) x post :=
  follows_among_bind fun x₁ left =>
    h _ _ (left.rests.trans (x₁.perform_rests (Request.passes_of_isStill still)))
      ((left.toSameData.trans (x₁.perform_still still).toSameData).stands stands)

theorem dispatch_tells (setup : Setup) (a id : RuleId) (generation : Option Nat)
    (indexed : c.Indexed) (stands : Stands c x) (on : since.GoesOn x.clock) :
    (dispatch setup a generation).Follows (.among LeftAsIs) x fun result x' =>
      ∃ told, Tells setup c since a id x told result x' := by
  have run : ∀ x₁, Rests id x x₁ → Stands c x₁ → (executeLocked setup a).Follows
      (.among LeftAsIs) x₁ fun result x' => ∃ told, Tells setup c since a id x told result x' := by
    intro x₁ rests₁ stands₁
    refine (execute_tells setup a id indexed stands₁ (on.trans rests₁.clock)).bind ?_
    rintro result x₂ ⟨told, tells⟩
    refine Program.follows_rests_bind id (r := .unlock a) rfl fun _ x₃ rests₃ => ?_
    refine Program.follows_rests_bind id (r := .freeSlot) rfl fun _ x₄ rests₄ => ?_
    refine Program.follows_rests_bind id (r := .join) rfl fun _ x₅ rests₅ => ?_
    exact (Program.follows_pure _).mpr
      ⟨told, (tells.after_rests rests₁).then_rests ((rests₃.trans rests₄).trans rests₅)⟩
  unfold dispatch
  refine Program.follows_aside_bind id (r := .takeSlot) rfl stands fun _ x₁ rests₁ stands₁ => ?_
  refine Program.follows_aside_bind id (r := .lock a) rfl stands₁ fun _ x₂ rests₂ stands₂ => ?_
  have rests := rests₁.trans rests₂
  cases generation with
  | none => exact run x₂ rests stands₂
  | some generation =>
    exact Program.follows_aside_bind id (r := .fireJob a generation) rfl stands₂
      fun _ x₃ rests₃ stands₃ => run x₃ (rests.trans rests₃) stands₃

/-- Tasks keep the definitions of all rules. -/
theorem Program.Asks.follows_stands {α : Type} {p : Program α} (task : p.IsTask)
    (stands : Stands c x) : p.Follows (.among LeftAsIs) x fun _ => Stands c := by
  refine task.follows_among (Stands c) (fun r x' x₁ made before left => ?_) stands
  have stands₁ : Stands c x₁ := left.toSameData.stands before
  have kept := x₁.perform_definitions (Request.leavesDefinitions_of_ofTask made)
  exact ⟨kept.1 stands₁.indexed, stands₁.same.trans (kept.2 stands₁.indexed)⟩

/-- The bookkeeping after a run tells nothing, and what was written counts as written still. -/
structure Notes (id : RuleId) (s s' : State) : Prop where
  log : s'.log = s.log
  clock : s.clock.GoesOn s'.clock
  written : s.catalog.Written id → s'.catalog.Written id

theorem Notes.trans (h : Notes id s s') (h' : Notes id s' s'') : Notes id s s'' :=
  ⟨h'.log.trans h.log, h.clock.trans h'.clock, h'.written ∘ h.written⟩

theorem Rests.notes (h : Rests id s s') : Notes id s s' :=
  ⟨h.log, h.clock, fun written => by rwa [Catalog.Written, h.row]⟩

theorem complete_notes (a id : RuleId) (generation : Option Nat) (schedule : Schedule)
    (previous : Instant) (result : Except Failure Nat) :
    (complete setup a generation schedule previous result).Follows (.among LeftAsIs) x
      fun _ => Notes id x := by
  refine (complete_asks setup (P := fun r => r.ofBooks = true) (fun _ made => made) a generation
    schedule previous result).follows_among (Notes id x) (fun r x' x₁ made before left => ?_)
    (Rests.refl id x).notes
  refine (before.trans left.rests.notes).trans ?_
  by_cases passes : r.Passes id
  · exact (x₁.perform_rests passes).notes
  · cases r <;> simp [Request.ofBooks, Request.Passes, Request.leavesCatalog] at made passes
    refine ⟨?_, x₁.perform_goesOn _, fun written => State.perform_recordRun_written written ..⟩
    next a last next =>
    obtain ⟨catalog, faults, same⟩ := x₁.perform_ofRows (r := .recordRun a last next) rfl
    rw [same]

end Cohort
