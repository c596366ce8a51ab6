import Cohort.Proofs.Manager.History
import Cohort.Proofs.Run.Dates

/-!
# How far tables are complete

A query is as complete as the time at which its run has begun, and a combination is as complete as
the least complete of its operands. Operands are run by themselves too, but then they get more
complete and never less. So no table counts as more complete than those it was computed from, in
whatever order rules are run, and whether runs succeed or fail.

## Main definitions

* `NestedRun.Dates` — a nested run leaves rows that claim no more than they can
* `Ran` — what a history of runs leads to

## Main results

* `loadDependencies_dates` — operands are loaded with the earliest of their times
* `runRule_dates` — what a run preserves, however deep it is
* `freshness_not_overstated` — after every history of runs, and in the midst of them
-/

namespace Cohort

open Cohort.Action

variable {setup : Setup} {nested : NestedRun} {running refreshed : List RuleId} {id d : RuleId}
  {c : Catalog} {s x x' : State} {e : Entry} {t : Instant}

/-! ## The parts of a run -/

/-- The earliest of some instants is one of them, and it is not later than any. -/
theorem earliestOf_spec {times : List Instant} (h : earliestOf times = some t) :
    t ∈ times ∧ ∀ u ∈ times, t ≤ u := by
  cases times with
  | nil => cases h
  | cons first rest =>
    obtain rfl := Option.some.inj h
    exact ⟨Instant.foldl_earliest_mem first rest,
      (Instant.le_foldl_earliest_iff _ first rest).mp (Instant.le_refl _)⟩

/-- If these are the times of the operands, then theirs is the earliest. -/
theorem Catalog.isEarliest_of_times {operands : List RuleId} {times : List Instant}
    (h : times.map some = operands.map c.asOf?) (earliest : earliestOf times = some t) :
    c.IsEarliest operands t := by
  obtain ⟨member, least⟩ := earliestOf_spec earliest
  constructor
  · intro a operand
    have listed : c.asOf? a ∈ times.map some := h ▸ List.mem_map_of_mem operand
    obtain ⟨u, hu, written⟩ := List.mem_map.mp listed
    exact ⟨u, written.symm, least u hu⟩
  · have listed : some t ∈ operands.map c.asOf? := h ▸ List.mem_map_of_mem member
    exact List.mem_map.mp listed

theorem loadDependency_dates (dated : Dated c x) :
    (loadDependency id d).Follows .dating x
      (fun loaded x' => RowsStay x x' ∧ x.catalog.asOf? d = some loaded.2) (RowsStay x) := by
  unfold loadDependency
  refine follows_getRow_rowsStay fun x₁ stay₁ => ?_
  cases found : x.catalog.get? d with
  | none => exact (follows_throw _).mpr stay₁
  | some e =>
    dsimp only
    -- A table that was ever written has a time up to which it is complete.
    rw [(dated.rows d e found).asOf]
    split
    · exact (follows_throw _).mpr stay₁
    · next asOf written =>
      refine follows_rowsStay_bind rfl fun rows x₂ stay₂ => ?_
      have stay := stay₁.trans stay₂
      cases rows with
      | error cause => exact (follows_throw _).mpr stay
      | ok rows =>
        rw [Catalog.asOf?_of_get? found]
        exact (follows_pure _).mpr ⟨stay, written⟩

/-- Operands are loaded with the earliest of their times. -/
theorem loadDependencies_dates (dated : Dated c x) (operands : List RuleId) :
    (loadDependencies id operands).Follows .dating x
      (fun loaded x' => RowsStay x x' ∧ x.catalog.IsEarliest operands loaded.2) (RowsStay x) := by
  unfold loadDependencies
  -- The times loaded so far are those of the operands before the ones to come.
  refine (follows_mapM (fun loaded rest x' => RowsStay x x' ∧ ∃ seen, operands = seen ++ rest ∧
    (loaded.map (·.2)).map some = seen.map x.catalog.asOf?) ?_ operands []
    ⟨.refl x, [], rfl, rfl⟩).bind ?_
  · rintro loaded d rest x₁ ⟨stay₁, seen, split, times⟩
    refine (loadDependency_dates (dated.stays stay₁)).mono ?_ fun x₂ stay₂ => stay₁.trans stay₂
    rintro more x₂ ⟨stay₂, time⟩
    refine ⟨stay₁.trans stay₂, seen ++ [d], by simp [split], ?_⟩
    rw [stay₁.catalog] at time
    simp only [List.map_append, times, time, List.map_cons, List.map_nil]
  · rintro loaded x₁ ⟨stay₁, seen, split, times⟩
    rw [List.append_nil] at split
    rw [List.nil_append] at times
    subst split
    split
    · exact (follows_throw _).mpr stay₁
    · next oldest earliest =>
      exact (follows_pure _).mpr ⟨stay₁, Catalog.isEarliest_of_times times earliest⟩

theorem computeComposite_dates (dated : Dated c x) (operands : List RuleId)
    (operation : SetOperation) (residual : Option Query) :
    (computeComposite id operands operation residual).Follows .dating x
      (fun computed x' => RowsStay x x' ∧ x.catalog.IsEarliest operands computed.2)
      (RowsStay x) := by
  unfold computeComposite
  refine (loadDependencies_dates dated operands).bind ?_
  rintro ⟨datasets, oldest⟩ x₁ ⟨stay₁, earliest⟩
  have combines : (orFail id (pure (Dataset.combine operation datasets))).Asks
      fun r => r.leavesCatalog = true := orFail_asks (Program.asks_pure _)
  refine (follows_rowsStay combines stay₁).bind fun combined x₂ stay₂ => ?_
  split
  · exact (follows_pure _).mpr ⟨stay₂, earliest⟩
  · next q _ =>
    have asks : (orFail id (runQuery q)).Asks fun r => r.leavesCatalog = true :=
      orFail_asks (runQuery_asks (fun _ read => Request.leavesCatalog_of_ofReading read) q)
    refine (follows_rowsStay asks stay₂).bind fun narrowed x₃ stay₃ => ?_
    exact (follows_pure _).mpr ⟨stay₃, earliest⟩

/-- A nested run leaves all rows dated. If it succeeds, the table of its rule is as complete as
those that it was computed from. -/
def NestedRun.Dates (c : Catalog) (nested : NestedRun) : Prop :=
  ∀ running refreshed id x, Dated c x →
    (nested running refreshed id).Follows .dating x (fun _ => Abreast c id) (Dated c)

theorem refreshLocked_dates (dates : nested.Dates c) (dated : Dated c x) (seen : Entry) :
    (refreshLocked nested running id d seen refreshed).Follows .dating x
      (fun _ => Dated c) (Dated c) := by
  unfold refreshLocked
  refine follows_rowsStay_bind rfl fun row x₁ stay₁ => ?_
  have dated₁ := dated.stays stay₁
  split
  · exact (follows_pure _).mpr dated₁
  · split
    · exact (follows_pure _).mpr dated₁
    · refine follows_of_bind.mpr ((dates running refreshed d x₁ dated₁).outcome ?_ ?_)
      · exact fun _ x₂ done => (follows_pure _).mpr done.toDated
      · exact fun _ x₂ failed => (follows_throw _).mpr failed

theorem refreshDependency_dates (dates : nested.Dates c) (dated : Dated c x) (now : Instant) :
    (refreshDependency nested running id now refreshed d).Follows .dating x
      (fun _ => Dated c) (Dated c) := by
  unfold refreshDependency
  split
  · exact (follows_pure _).mpr dated
  refine follows_rowsStay_bind rfl fun row x₁ stay₁ => ?_
  have dated₁ := dated.stays stay₁
  split
  · exact (follows_pure _).mpr dated₁
  split
  · exact (follows_pure _).mpr dated₁
  split
  · exact refreshLocked_dates dates dated₁ _
  · refine follows_rowsStay_bind (r := .lockNested d) rfl fun _ x₂ stay₂ => ?_
    -- The lock is given back whatever the outcome is.
    have unlocks : ∀ (outcome : Except Failure (List RuleId)) x₃, Dated c x₃ →
        (Action.call (.unlock d) >>= fun _ => Action.check (pure outcome)).Follows .dating x₃
          (fun _ => Dated c) (Dated c) := by
      intro outcome x₃ dated₃
      refine follows_rowsStay_bind (r := .unlock d) rfl fun _ x₄ stay₄ => ?_
      refine follows_check.mpr ((Program.follows_pure _).mpr ?_)
      cases outcome <;> exact dated₃.stays stay₄
    refine follows_of_bind.mpr ((refreshLocked_dates dates (dated₁.stays stay₂) _).outcome ?_ ?_)
    · exact fun _ x₃ dated₃ => unlocks _ x₃ dated₃
    · exact fun _ x₃ dated₃ => unlocks _ x₃ dated₃

theorem refreshDependencies_dates (dates : nested.Dates c) (dated : Dated c x)
    (operands : List RuleId) :
    (refreshDependencies nested running id operands refreshed).Follows .dating x
      (fun _ => Dated c) (Dated c) := by
  unfold refreshDependencies
  refine follows_rowsStay_bind (r := .now) rfl fun now x₁ stay₁ => ?_
  refine follows_foldlM (Dated c) operands ?_ refreshed (dated.stays stay₁)
  exact fun refreshed d _ x₂ dated₂ => refreshDependency_dates dates dated₂ now

theorem compute_dates (dates : nested.Dates c) (dated : Dated c x)
    (found : x.catalog.get? id = some e) {started : Instant} (shown : x.clock.HasShown started)
    (newest : ∀ t, x.catalog.asOf? id = some t → t ≤ started) :
    (compute setup nested running refreshed e started).Follows .dating x
      (fun computed x' => Dated c x' ∧ Suits x' id computed.2.1) (Dated c) := by
  unfold compute
  split
  -- A query is as complete as the time at which the run has begun.
  · next q source =>
    have asks : (computeBase e.id q).Asks fun r => r.leavesCatalog = true :=
      computeBase_asks (fun _ read => Request.leavesCatalog_of_ofReading read) q
    have suits : Suits x id started := by
      refine ⟨shown, newest, fun e' operands found' source' => ?_⟩
      obtain rfl := Option.some.inj (found.symm.trans found')
      rw [source] at source'
      cases source'
    refine ((follows_rowsStay asks (.refl x)).mono (fun _ _ stay => stay)
      fun _ => dated.stays).bind ?_
    exact fun rows x₁ stay₁ => (follows_pure _).mpr ⟨dated.stays stay₁, suits.stays stay₁⟩
  -- A combination is as complete as its operands are when they are loaded.
  · next operands operation residual source =>
    have composite : ∀ (refreshed : List RuleId) x₁, Dated c x₁ →
        (computeComposite e.id operands operation residual >>= fun result =>
          pure (result.1, result.2, refreshed) :
            Action (Dataset × Instant × List RuleId)).Follows .dating x₁
          (fun computed x' => Dated c x' ∧ Suits x' id computed.2.1) (Dated c) := by
      intro refreshed x₁ dated₁
      refine ((computeComposite_dates dated₁ operands operation residual).mono
        (fun _ _ computed => computed) fun _ => dated₁.stays).bind ?_
      rintro ⟨rows, oldest⟩ x₂ ⟨stay₂, earliest⟩
      -- The row may have been written meanwhile, but its segment is computed as before.
      obtain ⟨e₁, found₁, same⟩ := dated.exists_source dated₁.toStands found
      have combined : e₁.segment.source.dependsOn? = some operands := by rw [same, source]; rfl
      have suits := dated₁.suits_of_isEarliest found₁ combined earliest
      exact (follows_pure _).mpr ⟨dated₁.stays stay₂, suits.stays stay₂⟩
    split
    · exact (refreshDependencies_dates dates dated operands).bind fun refreshed x₁ =>
        composite refreshed x₁
    · exact composite refreshed x dated

/-- An attempt to write down a refresh. If it succeeds, the rule is dated by its operands. -/
theorem recordRefresh_dates {refresh : Refresh} {f : Except Failure Unit → Action Unit}
    (dated : Dated c x) (suits : Suits x id refresh.dataAsOf)
    (notLater : refresh.dataAsOf ≤ refresh.refreshedAt) (recorded : f (.ok ()) = pure ())
    (refused : ∀ cause x', RowsStay x x' →
      (f (.error cause)).Follows .dating x' (fun _ => Abreast c id) (Dated c)) :
    (Action.call (.recordRefresh id refresh) >>= f).Follows .dating x (fun _ => Abreast c id)
      (Dated c) := by
  refine follows_call_bind.mpr ⟨⟨notLater, suits⟩, ?_⟩
  rintro answer _ ⟨x₁, stay, rfl, rfl⟩
  have dated₁ := dated.stays stay
  have suits₁ := suits.stays stay
  rcases x₁.perform_recordRefresh_outcome id refresh
    with ⟨cause, failed, still⟩ | ⟨done, e, found, rows⟩
  · rw [failed]
    exact refused cause _ (stay.trans ⟨still.catalog, x₁.perform_goesOn _⟩)
  · rw [done, recorded]
    have dated₂ : Dated c (x₁.perform (.recordRefresh id refresh)).2 :=
      dated₁.perform ⟨notLater, suits₁⟩
    exact (follows_pure _).mpr ⟨dated₂, suits₁.datedByOperands rows found⟩

theorem writeMetadata_dates {refresh : Refresh} (dated : Dated c x)
    (suits : Suits x id refresh.dataAsOf) (notLater : refresh.dataAsOf ≤ refresh.refreshedAt)
    (more : Nat) :
    (writeMetadata id refresh more).Follows .dating x (fun _ => Abreast c id) (Dated c) := by
  -- A refusal leaves all rows alone, so that the next attempt finds what this one has found.
  induction more generalizing x with
  | zero =>
    rw [writeMetadata]
    refine recordRefresh_dates dated suits notLater rfl fun cause x' stay => ?_
    exact (follows_throw _).mpr (dated.stays stay)
  | succ fewer ih =>
    rw [writeMetadata]
    refine recordRefresh_dates dated suits notLater rfl fun cause x' stay => ?_
    exact ih (dated.stays stay) (suits.stays stay)

theorem materialize_dates (dates : nested.Dates c) : (materialize setup nested).Dates c := by
  intro running refreshed id x dated
  unfold materialize
  refine follows_getRow_rowsStay fun x₁ stay₁ => ?_
  have dated₁ := dated.stays stay₁
  cases found : x.catalog.get? id with
  | none => exact (follows_throw _).mpr dated₁
  | some e =>
    refine follows_now_rowsStay dated₁ fun started x₂ stay₂ shown₂ newest => ?_
    have stay := stay₁.trans stay₂
    -- The row is as complete as it was when the clock was read.
    refine (compute_dates dates (dated.stays stay) (stay.catalog ▸ found) shown₂
      fun t written => ?_).bind ?_
    · rw [stay₂.catalog] at written
      exact newest t (dated₁.shown written)
    rintro ⟨rows, asOf, refreshed'⟩ x₃ ⟨dated₃, suits₃⟩
    have writes : (orFail id (Program.call (.writeTable e.segment.table rows))).Asks
        fun r => r.leavesCatalog = true := orFail_asks (Program.asks_call rfl)
    refine ((follows_rowsStay writes (.refl x₃)).mono (fun _ _ stay => stay)
      fun _ => dated₃.stays).bind fun count x₄ stay₄ => ?_
    refine follows_now_rowsStay (dated₃.stays stay₄) fun finished x₅ stay₅ _ later => ?_
    have suits₄ := suits₃.stays stay₄
    have dated₅ := (dated₃.stays stay₄).stays stay₅
    refine (writeMetadata_dates dated₅ (suits₄.stays stay₅) (later asOf suits₄.shown) _).bind ?_
    exact fun _ x₆ done => (follows_pure _).mpr done

theorem runWith_dates (dates : nested.Dates c) : (runWith setup nested).Dates c := by
  intro running refreshed id x dated
  unfold runWith
  split
  · exact (follows_throw _).mpr dated
  refine follows_rowsStay_bind rfl fun _ x₁ stay₁ => ?_
  -- The event at the end of the run leaves all rows alone.
  refine follows_of_bind.mpr
    ((materialize_dates dates _ refreshed id x₁ (dated.stays stay₁)).outcome ?_ ?_)
  · intro done x₂ abreast₂
    refine follows_rowsStay_bind rfl fun _ x₃ stay₃ => ?_
    exact (follows_pure _).mpr (abreast₂.stays stay₃)
  · intro failure x₂ dated₂
    refine follows_rowsStay_bind rfl fun _ x₃ stay₃ => ?_
    exact (follows_throw _).mpr (dated₂.stays stay₃)

/-- However deep a run goes, it leaves all rows dated. -/
theorem runRule_dates (depth : Nat) : (runRule setup depth).Dates c := by
  induction depth with
  | zero => exact fun _ _ _ _ dated => (follows_throw _).mpr dated
  | succ depth ih => exact runWith_dates ih

theorem execute_dates (dated : Dated c x) (id : RuleId) :
    (execute setup id).Follows .dating x (fun _ => Abreast c id) (Dated c) :=
  (runRule_dates _ [] [] id x dated).bind fun _ _ done => (follows_pure _).mpr done

/-! ## Histories of runs -/

/-- A history of runs leads to the state. Rules are run by themselves, one after the other and in
any order, and each run may succeed or fail. Between runs and during them all but the rows can
change. -/
inductive Ran (setup : Setup) (s : State) : State → Prop
  | start : Ran setup s s
  | change {x x' : State} (before : Ran setup s x) (stay : RowsStay x x') : Ran setup s x'
  | run {x x' : State} {result : Except Failure Nat} (before : Ran setup s x) (id : RuleId)
      (ends : (execute setup id).outcome.EndsAmong RowsStay x result x') : Ran setup s x'

/-- What comes up in a run of a dated state is dated. -/
theorem Dated.execute_passes (dated : Dated c x)
    (passes : (execute setup id).outcome.Passes RowsStay x x') : Dated c x' :=
  (follows_check.mp (execute_dates dated id)).passes (Dated c)
    (fun _ _ dated stay => dated.stays stay)
    (fun _ _ _ fits dated stay => (dated.stays stay).perform (fits.stays stay)) dated passes

theorem Ran.dated (h : Ran setup s x) (dated : Dated c s) : Dated c x := by
  induction h with
  | start => exact dated
  | change _ stay ih => exact ih.stays stay
  | run _ id ends ih => exact ih.execute_passes ends.passes

/-- What changes after a run that has succeeded leaves its rule abreast of its operands. -/
theorem datedByOperands_of_endsAmong {α : Type} {a : Action α} {v : α}
    (follows : a.Follows .dating x (fun _ => Abreast c id) (Dated c))
    (ends : a.outcome.EndsAmong RowsStay x (.ok v) x') : x'.catalog.DatedByOperands id := by
  have catchesUp : a.outcome.Follows .dating x fun result x' =>
      ∀ v, result = .ok v → Abreast c id x' := follows.outcome (fun _ _ done _ _ => done) nofun
  obtain ⟨x₁, abreast, stay⟩ := catchesUp.of_guarded.of_endsAmong ends
  exact ((abreast v rfl).stays stay).byOperands

/-- Where no table was ever written and the clock does not go back, nothing is overstated. -/
theorem Dated.of_unwritten (indexed : s.catalog.Indexed) (onwards : s.clock.NeverGoesBack)
    (unwritten : ∀ e ∈ s.catalog.list,
      e.segment.lastRefreshedAt = none ∧ e.segment.dataAsOf = none) : Dated s.catalog s where
  indexed := indexed
  same := .refl _
  onwards := onwards
  rows id e found := by
    obtain ⟨never, nothing⟩ := unwritten e (indexed.get?_eq_some.mp found).1
    constructor <;> simp [never, nothing]

/-- No row overstates how complete its table is. Starting where no table was ever written, rules are
run by themselves in any order, with success or not, while everything but rows can change at any
time. In all states that come up, also in the midst of a run, a table has a time up to which it is
complete if and only if it was ever written. This is not later than the time at which it was
written, and not later than the time of any table that it depends on, directly or through others.
Whenever a run has succeeded, and also a run within another, the time of a combined segment is the
earliest of the times of its operands. -/
theorem freshness_not_overstated (indexed : s.catalog.Indexed) (onwards : s.clock.NeverGoesBack)
    (unwritten : ∀ e ∈ s.catalog.list,
      e.segment.lastRefreshedAt = none ∧ e.segment.dataAsOf = none)
    (history : Ran setup s x) (now : (execute setup id).outcome.Passes RowsStay x x') :
    (∀ e ∈ x'.catalog.list,
      (e.segment.dataAsOf.isSome ↔ e.segment.lastRefreshedAt.isSome) ∧
      ∀ t, e.segment.dataAsOf = some t →
        (∀ u, e.segment.lastRefreshedAt = some u → t ≤ u) ∧
        ∀ a, Relation.TransGen (DependsOn x'.catalog.list) e.id a →
          ∃ u, x'.catalog.asOf? a = some u ∧ t ≤ u) ∧
    (∀ a count s', (execute setup a).outcome.EndsAmong RowsStay x' (.ok count) s' →
      s'.catalog.DatedByOperands a) ∧
    ∀ depth running refreshed a done s',
      (runRule setup depth running refreshed a).outcome.EndsAmong RowsStay x' (.ok done) s' →
      s'.catalog.DatedByOperands a := by
  have before := history.dated (.of_unwritten indexed onwards unwritten)
  have dated := before.execute_passes now
  refine ⟨fun e listed => ?_, fun a count s' ends => ?_,
    fun depth running refreshed a done s' ends => ?_⟩
  · have found := dated.indexed.mem_list.mp listed
    have row := dated.rows e.id e found
    refine ⟨by rw [row.together], fun t written => ⟨fun u => row.notLater t u written, ?_⟩⟩
    intro a reached
    exact dated.upstream (by rw [Catalog.asOf?_of_get? found, written]) reached
  · exact datedByOperands_of_endsAmong (execute_dates dated a) ends
  · exact datedByOperands_of_endsAmong (runRule_dates depth running refreshed a x' dated) ends

/-- Four rules of which none was run: one for each kind of transactions, one that unites these, and
one for the users that are in the first and in the third. The clock shows another time whenever it
is read, and no rule is due. -/
private def tower : State :=
  let day : Date := ⟨2024, 9, 1, by decide⟩
  let transactions : List Transaction :=
    [⟨some "ann", 10.0, day, 1, "UPI", none⟩, ⟨some "bob", 20.0, day, 1, "CARD", none⟩]
  let upi := Condition.of "transaction_type" "=" (.text "UPI")
  let card := Condition.of "transaction_type" "=" (.text "CARD")
  let united : Composition := ⟨[.ofNat 1, .ofNat 2], .union⟩
  let common : Composition := ⟨[.ofNat 1, .ofNat 3], .intersection⟩
  let created := Operation.apply {} (Operation.apply {} (Operation.apply {} (Operation.apply {}
    (({} : Setup).start (.still ⟨0, 0⟩) { transactions })
    (.create { name := "a", conditions := [upi], active := false }))
    (.create { name := "b", conditions := [card], active := false }))
    (.create { name := "c", composition := some united, active := false }))
    (.create { name := "d", composition := some common, active := false })
  { created with clock := { reading := fun i => ⟨i, 0⟩ } }

private def State.crashing (crashes : Bool) (s : State) : State :=
  { s with engine := { s.engine with crashQueries := crashes } }

/-- The last rule was run, which has run all others. Then the first one was run again, once while
queries ended the process and once with success. -/
private def renewed : State :=
  let all := ((execute {} (.ofNat 4)).outcome.run tower).2
  let failed := ((execute {} (.ofNat 1)).outcome.run (all.crashing true)).2
  ((execute {} (.ofNat 1)).outcome.run (failed.crashing false)).2

private theorem ran_renewed : Ran {} tower renewed := by
  have switched (crashes : Bool) (s : State) : RowsStay s (s.crashing crashes) := ⟨rfl, .refl _⟩
  have all := Ran.start.run (.ofNat 4) (RowsStay.of_run (execute {} (.ofNat 4)).outcome tower)
  have failed := (all.change (switched true _)).run (.ofNat 1) (RowsStay.of_run _ _)
  exact (failed.change (switched false _)).run (.ofNat 1) (RowsStay.of_run _ _)

theorem freshness_not_overstated_tower :
    let combined := ((execute {} (.ofNat 3)).outcome.run renewed).2
    let last := (execute {} (.ofNat 4)).outcome.run combined
    let times (s : State) := [1, 2, 3, 4].map fun n => s.catalog.asOf? (.ofNat n)
    Ran {} tower renewed ∧
      times tower = [none, none, none, none] ∧
      times renewed = [some ⟨11, 0⟩, some ⟨6, 0⟩, some ⟨2, 0⟩, some ⟨2, 0⟩] ∧
      times combined = [some ⟨11, 0⟩, some ⟨6, 0⟩, some ⟨6, 0⟩, some ⟨2, 0⟩] ∧
      (∀ e ∈ combined.catalog.list, ∀ t, e.segment.dataAsOf = some t →
        ∀ a, Relation.TransGen (DependsOn combined.catalog.list) e.id a →
          ∃ u, combined.catalog.asOf? a = some u ∧ t ≤ u) ∧
      times last.2 = [some ⟨11, 0⟩, some ⟨6, 0⟩, some ⟨6, 0⟩, some ⟨6, 0⟩] ∧
      last.2.catalog.DatedByOperands (.ofNat 4) := by
  intro combined last times
  have indexed : tower.catalog.Indexed := ⟨by decide +kernel, by decide +kernel⟩
  have onwards : tower.clock.NeverGoesBack := by
    intro i j before
    change (⟨i, 0⟩ : Instant) ≤ ⟨j, 0⟩
    rw [Instant.le_iff]
    dsimp only
    omega
  obtain ⟨each, settles, -⟩ := freshness_not_overstated indexed onwards (by decide +kernel)
    ran_renewed (RowsStay.of_run (execute {} (.ofNat 3)).outcome renewed).passes
  have succeeds : last.1 = .ok 1 := by decide +kernel
  refine ⟨ran_renewed, by decide +kernel, by decide +kernel, by decide +kernel,
    fun e listed t written => ((each e listed).2 t written).2, by decide +kernel, ?_⟩
  have finished := RowsStay.of_run (execute {} (.ofNat 4)).outcome combined
  rw [show ((execute {} (.ofNat 4)).outcome.run combined).1 = .ok 1 from succeeds] at finished
  exact settles (.ofNat 4) 1 _ finished

end Cohort
