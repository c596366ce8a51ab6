import Cohort.Proofs.Manager.Creations
import Cohort.Proofs.Run.Mirror

/-!
# Rows and tables through all operations

Rules are created, changed, deleted and run, one operation after the other, while queries and
writes fail at any time and transactions come in. No operation leaves a row that does not mirror
its table: a new rule has neither been run nor a table, a change of a rule touches neither what its
row says of the table nor the table, and a deletion takes out both.

## Main definitions

* `Operation.ComesTo` — an operation ends with a state, while the rest of the state changes
* `Occurs` — the states of a system in which the catalogue refuses nothing without a reason

## Main results

* `createRule_mirrors`, `updateRule_mirrors`, `deleteRule_mirrors` — changes of rules
* `Operation.ComesTo.mirrored` — an operation leaves rows that mirror their tables
* `rows_mirror_tables` — all states have rows that mirror their tables
-/

namespace Cohort

open Cohort.Action

variable {setup : Setup} {naming : Settings.Naming} {k k' : Stored} {s s' : State}
  {e current next stored : Entry} {id : RuleId} {warnings : List Warning}

/-! ## Single rows -/

theorem Request.leavesData_of_ofSchedule {r : Request} (h : r.ofSchedule = true) :
    r.leavesData = true := by
  cases r <;> simp_all [ofSchedule, leavesData, leavesCatalog]

theorem Request.leavesData_of_ofPlanning {excluded : List RuleId} {r : Request}
    (h : r.ofPlanning excluded = true) : r.leavesData = true := by
  cases r <;> simp_all [ofPlanning, leavesData, leavesCatalog]

/-- A job that is put in place has no bearing on rows and tables. -/
theorem schedule_ensures (setup : Setup) (rule : Rule) :
    (schedule setup rule).outcome.Ensures k fun _ k' => k' = k :=
  (schedule_asks (fun r => r.leavesData_of_ofSchedule) rule).outcome.ensures_kept

/-- Nor has a plan. -/
theorem plan_ensures (conditions : List Condition) (composition : Option Composition)
    (excluded : List RuleId) :
    (plan setup conditions composition excluded).Ensures k (fun _ k' => k' = k) fun k' => k' = k :=
  Asks.ensures_kept (plan_asks (fun r => r.leavesData_of_ofPlanning) _ _)

/-- A row that was never refreshed can be added under its own table name. -/
theorem insertRow_mirrors (h : k.Mirrored naming none)
    (named : e.segment.table = naming.tableName e.id) (fresh : e.segment.lastRefreshedAt = none) :
    (check (Program.call (.insertRow e))).Ensures k
      (fun stored k' => k'.Mirrored naming none ∧ k'.catalog.get? stored.id = some stored ∧
        stored.segment.lastRefreshedAt = none)
      fun k' => k'.Mirrored naming none := by
  refine ensures_check.mpr (Program.ensures_call.mpr ?_)
  rintro s rfl
  simp only [State.perform]
  rcases s.catalog.insert_cases e with
    ⟨failure, unchanged⟩ | ⟨c', inserted, -, missing, -, rows, -, -⟩
  · rw [unchanged]
    exact h
  · rw [inserted]
    have no_table : Assoc.get? (naming.tableName e.id) s.stored.tables = none :=
      h.get?_eq_none missing
    have mirrors : Entry.Mirrors { e with version := 1 } s.stored.tables := by
      refine ⟨?_, fun d hd => ?_⟩
      · rw [Segment.isMaterialized, fresh, named, no_table]
        rfl
      · rw [named, no_table] at hd
        cases hd
    refine ⟨(h.setApart e.id).putRow (e := { e with version := 1 }) rows rfl rfl named mirrors, ?_,
      fresh⟩
    exact (Catalog.get?_of_put (e := { e with version := 1 }) rows e.id).trans (if_pos rfl)

/-- A row can be taken out that has no table. -/
theorem removeRow_mirrors (h : k.Mirrored naming (some id)) (found : k.catalog.get? id = some e)
    (missing : Assoc.get? (naming.tableName id) k.tables = none) :
    (Program.call (.removeRow id)).Ensures k fun _ k' => k'.Mirrored naming none := by
  refine Program.ensures_call.mpr ?_
  rintro s rfl
  have stored : s.catalog.get? id = some e := found
  rw [State.perform_removeRow (by exact h.faultless), Catalog.remove_eq stored]
  exact h.eraseRow missing rfl rfl rfl

/-- A row can be replaced by one that says the same of the table. -/
theorem replaceRow_mirrors {expected : Nat} (h : k.Mirrored naming none)
    (found : k.catalog.get? e.id = some current) (same : e.segment.SameTable current.segment) :
    (Program.call (.replaceRow e expected)).Ensures k fun result k' =>
      k'.Mirrored naming none ∧
        match result with
        | .ok stored => stored.id = e.id ∧ stored.segment = e.segment ∧
            k'.catalog.get? e.id = some stored
        | .error _ => k' = k := by
  refine Program.ensures_call.mpr ?_
  rintro s rfl
  rw [State.perform_replaceRow (by exact h.faultless)]
  rcases s.catalog.replace_cases e expected with
    ⟨failure, unchanged⟩ | ⟨old, c', replaced, -, -, -, -, rows, -, -⟩
  · rw [unchanged]
    exact ⟨h, rfl⟩
  · rw [replaced]
    have same_id : e.id = current.id := (h.indexed.id_of_get? found).symm
    have named : e.segment.table = naming.tableName e.id :=
      same.table.trans (h.named _ current found)
    have mirrors : Entry.Mirrors { e with version := expected + 1 } s.stored.tables :=
      (h.mirrors _ current found nofun).of_same ⟨same.table, same.rowCount, same.lastRefreshedAt⟩
    refine ⟨(h.setApart e.id).putRow (e := { e with version := expected + 1 }) rows rfl rfl named
      mirrors, rfl, rfl, ?_⟩
    exact (Catalog.get?_of_put (e := { e with version := expected + 1 }) rows e.id).trans
      (if_pos rfl)

/-! ## Creating rules -/

theorem commitCreate_mirrors (h : k.Mirrored naming none)
    (found : k.catalog.get? stored.id = some stored)
    (fresh : stored.segment.lastRefreshedAt = none) :
    (commitCreate setup stored warnings).Ensures k (fun _ k' => k'.Mirrored naming none)
      fun k' => k'.Mirrored naming none := by
  have missing : Assoc.get? (naming.tableName stored.id) k.tables = none := by
    have written := (h.mirrors _ stored found nofun).written
    rw [Segment.isMaterialized, fresh, h.named _ stored found] at written
    exact Option.not_isSome_iff_eq_none.mp (written ▸ Bool.false_ne_true)
  unfold commitCreate
  rw [ensures_bind, ensures_of]
  refine (schedule_ensures setup stored.rule).mono ?_
  rintro (failure | _) _ rfl
  · dsimp only
    rw [ensures_bind]
    exact ensures_of.mpr ((removeRow_mirrors (h.setApart stored.id) found missing).mono
      fun _ _ h₁ => (ensures_throw _).mpr h₁)
  · dsimp only
    exact ensures_bind_kept rfl fun _ => (ensures_pure _).mpr h

/-- A new rule has neither been run nor a table. -/
theorem createRule_mirrors (h : k.Mirrored setup.naming none) (d : RuleDraft) :
    (createRule setup d).Ensures k (fun _ k' => k'.Mirrored setup.naming none)
      fun k' => k'.Mirrored setup.naming none := by
  unfold createRule
  dsimp only
  split
  · exact (ensures_throw _).mpr h
  · refine ensures_bind_kept rfl fun rows => ?_
    split
    · exact (ensures_throw _).mpr h
    · rw [ensures_bind]
      refine ensures_call.mpr ?_
      rintro s rfl
      -- An identifier that is given away leaves all rows as they are.
      have h₁ : (s.perform .allocateId).2.stored.Mirrored setup.naming none :=
        h.of_rows_eq rfl rfl rfl
      rw [ensures_bind]
      refine (plan_ensures _ _ _).mono ?_ fun _ same => same ▸ h₁
      rintro p _ rfl
      refine ensures_bind_kept rfl fun now => ?_
      exact (insertRow_mirrors h₁ rfl rfl).bind
        fun stored k₂ ⟨h₂, found, fresh⟩ => commitCreate_mirrors h₂ found fresh

/-! ## Changing rules -/

/-- A patch leaves what a row says of the table. -/
theorem applyPatch_ensures (current : Entry) (patch : RulePatch) :
    (applyPatch setup current patch).Ensures k
      (fun patched k' => k' = k ∧ patched.1.id = current.id ∧
        patched.1.segment.SameTable current.segment) fun k' => k' = k := by
  unfold applyPatch
  refine ensures_bind_kept rfl fun now => ?_
  rw [ensures_bind, ensures_check, Program.ensures_pure]
  cases applied : patch.applyPlain now current with
  | error failure => exact rfl
  | ok next =>
    obtain ⟨name, -, rfl⟩ := applyPlain_eq applied
    dsimp only
    split
    · exact (ensures_pure _).mpr ⟨rfl, rfl, rfl, rfl, rfl⟩
    · unfold replan
      rw [ensures_bind, ensures_bind]
      refine ensures_kept rfl fun rows => ?_
      dsimp only
      split
      · exact (ensures_throw _).mpr rfl
      · rw [ensures_bind]
        refine (plan_ensures _ _ _).mono ?_ fun _ same => same
        rintro p _ rfl
        exact (ensures_pure _).mpr ((ensures_pure _).mpr ⟨rfl, rfl, rfl, rfl, rfl⟩)

theorem commitUpdate_mirrors (h : k.Mirrored naming none)
    (found : k.catalog.get? current.id = some stored)
    (same : stored.segment.SameTable current.segment) :
    (commitUpdate setup current stored warnings).Ensures k (fun _ k' => k'.Mirrored naming none)
      fun k' => k'.Mirrored naming none := by
  unfold commitUpdate
  rw [ensures_bind, ensures_of]
  refine (schedule_ensures setup stored.rule).mono ?_
  rintro (failure | _) _ rfl
  -- The row from before says the same of the table.
  · dsimp only
    have back : current.segment.SameTable stored.segment :=
      ⟨same.table.symm, same.rowCount.symm, same.lastRefreshedAt.symm⟩
    rw [ensures_bind]
    refine ensures_of.mpr ((replaceRow_mirrors h found back).mono fun result k₁ h₁ => ?_)
    split
    · rw [ensures_bind, ensures_of]
      refine (schedule_ensures setup _).mono ?_
      rintro _ _ rfl
      exact (ensures_throw _).mpr h₁.1
    · exact (ensures_throw _).mpr h₁.1
  · dsimp only
    exact ensures_bind_kept rfl fun _ => (ensures_pure _).mpr h

theorem updateOnce_mirrors {again : Failure → Action RuleOutcome}
    (tried : ∀ failure, (again failure).Ensures k (fun _ k' => k'.Mirrored naming none)
      fun k' => k'.Mirrored naming none)
    (h : k.Mirrored naming none) (id : RuleId) (patch : RulePatch) :
    (updateOnce setup id patch again).Ensures k (fun _ k' => k'.Mirrored naming none)
      fun k' => k'.Mirrored naming none := by
  unfold updateOnce
  rw [ensures_bind]
  refine ensures_getRow ?_
  cases found : k.catalog.get? id with
  | none => exact (ensures_throw _).mpr h
  | some current =>
    dsimp only
    rw [ensures_bind]
    refine (applyPatch_ensures current patch).mono ?_ fun _ same => same ▸ h
    rintro ⟨next, warnings⟩ _ ⟨rfl, same_id, same⟩
    dsimp only at same_id same ⊢
    obtain rfl := h.indexed.id_of_get? found
    rw [ensures_bind]
    refine ensures_of.mpr ((replaceRow_mirrors h (same_id ▸ found) same).mono
      fun result k₁ ⟨h₁, outcome⟩ => ?_)
    split
    · obtain ⟨-, segment, stored⟩ := outcome
      exact commitUpdate_mirrors h₁ (same_id ▸ stored) (segment ▸ same)
    · obtain rfl := outcome
      split
      · exact tried _
      · exact (ensures_throw _).mpr h

/-- A change of a rule touches neither what its row says of the table nor the table. -/
theorem updateRule_mirrors (h : k.Mirrored naming none) (id : RuleId) (patch : RulePatch) :
    (updateRule setup id patch).Ensures k (fun _ k' => k'.Mirrored naming none)
      fun k' => k'.Mirrored naming none := by
  have within : ∀ more : Nat, (updateWithin setup id patch more).Ensures k
      (fun _ k' => k'.Mirrored naming none) fun k' => k'.Mirrored naming none := by
    intro more
    induction more with
    | zero => exact updateOnce_mirrors (fun _ => (ensures_throw _).mpr h) h id patch
    | succ fewer ih => exact updateOnce_mirrors (fun _ => ih) h id patch
  exact within 2

/-! ## Deleting rules -/

/-- The table and the row go together, or both stay. -/
theorem deleteLocked_mirrors (h : k.Mirrored naming none)
    (found : k.catalog.get? current.id = some current) :
    (deleteLocked current).Ensures k (fun _ k' => k'.Mirrored naming none)
      fun k' => k'.Mirrored naming none := by
  have table : current.segment.table = naming.tableName current.id := h.named _ current found
  unfold deleteLocked
  rw [ensures_bind, table]
  refine ensures_call.mpr ?_
  rintro s rfl
  by_cases refused : s.engine.failingDrops.contains (naming.tableName current.id) = true
  · simp only [State.perform, Engine.dropTable, if_pos refused]
    exact (ensures_throw _).mpr h
  · simp only [State.perform, Engine.dropTable, if_neg refused]
    refine ensures_check.mpr ((removeRow_mirrors (h.dropTable current.id) found
      (by rw [Assoc.get?_erase, if_pos rfl])).mono ?_)
    rintro (failure | removed) k₁ h₁
    · exact h₁
    · exact h₁

theorem deleteRule_mirrors (h : k.Mirrored naming none) (id : RuleId) :
    (deleteRule setup id).Ensures k (fun _ k' => k'.Mirrored naming none)
      fun k' => k'.Mirrored naming none := by
  unfold deleteRule
  rw [ensures_bind]
  refine ensures_listRows ?_
  cases listed : k.catalog.list.find? fun e => e.id = id with
  | none => exact (ensures_throw _).mpr h
  | some current =>
    have found : k.catalog.get? current.id = some current :=
      h.indexed.mem_list.mp (List.mem_of_find?_eq_some listed)
    dsimp only
    split
    · exact (ensures_throw _).mpr h
    · refine ensures_bind_kept rfl fun _ => ?_
      refine ensures_bind_kept rfl fun _ => ?_
      rw [ensures_bind, ensures_of]
      refine (deleteLocked_mirrors h found).outcome (fun removed k₁ h₁ => ?_)
        fun failure k₁ h₁ => ?_
      · refine ensures_bind_kept rfl fun _ => ?_
        exact ensures_bind_kept rfl fun _ => (ensures_pure _).mpr h₁
      · rw [ensures_bind, ensures_of]
        refine (schedule_ensures setup.whileWaiting current.rule).mono ?_
        rintro _ _ rfl
        exact ensures_bind_kept rfl fun _ => (ensures_throw _).mpr h₁

/-! ## Operations in a changing world -/

/-- Manual runs, one after the other. -/
def manualRuns (setup : Setup) : List ManualRun → Program Unit
  | [] => pure ()
  | run :: rest => do
    manualRun setup run
    manualRuns setup rest

theorem manualRuns_mirrors {c : Catalog} (runs : List ManualRun) (h : Mirroring naming c k) :
    (manualRuns setup runs).Ensures k fun _ => Mirroring naming c := by
  induction runs generalizing k with
  | nil => exact (Program.ensures_pure _).mpr h
  | cons run rest ih =>
    rw [manualRuns, Program.ensures_bind]
    exact (manualRun_mirrors h run).mono fun _ _ h₁ => ih h₁

theorem run_manualRuns (runs : List ManualRun) (s : State) :
    ((manualRuns setup runs).run s).2 =
      runs.foldl (fun s run => ((manualRun setup run).run s).2) s := by
  induction runs generalizing s with
  | nil => rfl
  | cons run rest ih => rw [manualRuns, Program.run_bind, ih, List.foldl_cons]

/-- The operation ends with a state, whether it succeeds or fails. Before each of its requests, and
at the end, everything can change that is not stored: transactions come in, queries and writes
begin to fail or cease to, and time passes. -/
inductive Operation.ComesTo (setup : Setup) : Operation → State → State → Prop
  | create {draft : RuleDraft} {result : Except Failure RuleOutcome} {s s' : State}
      (came : (createRule setup draft).outcome.ComesTo s result s') :
      ComesTo setup (.create draft) s s'
  | update {id : RuleId} {patch : RulePatch} {result : Except Failure RuleOutcome} {s s' : State}
      (came : (updateRule setup id patch).outcome.ComesTo s result s') :
      ComesTo setup (.update id patch) s s'
  | delete {id : RuleId} {result : Except Failure Entry} {s s' : State}
      (came : (deleteRule setup id).outcome.ComesTo s result s') : ComesTo setup (.delete id) s s'
  | pass {report : Option PassReport} {s s' : State} (came : (runPass setup).ComesTo s report s') :
      ComesTo setup .pass s s'
  | runByHand {id : RuleId} {result : Except Failure JobKey} {s s₁ s' : State}
      (asked : (trigger setup id).outcome.ComesTo s result s₁)
      (ran : (manualRuns setup s₁.board.manual).ComesTo s₁ () s') :
      ComesTo setup (.runByHand id) s s'

/-- An operation that is applied alone is one for which nothing else changes. -/
theorem Operation.comesTo_apply (operation : Operation) (s : State) :
    operation.ComesTo setup s (operation.apply setup s) := by
  cases operation with
  | create draft => exact .create (Program.comesTo_run _ s)
  | update id patch => exact .update (Program.comesTo_run _ s)
  | delete id => exact .delete (Program.comesTo_run _ s)
  | pass => exact .pass (Program.comesTo_run _ s)
  | runByHand id =>
    refine .runByHand (Program.comesTo_run _ s) ?_
    rw [apply, State.runByHand, ← run_manualRuns]
    exact Program.comesTo_run _ _

/-- An operation leaves rows that mirror their tables. -/
theorem Operation.ComesTo.mirrored {operation : Operation} (came : operation.ComesTo setup s s')
    (h : s.stored.Mirrored setup.naming none) : s'.stored.Mirrored setup.naming none := by
  have either : ∀ {α : Type} {a : Action α} {result : Except Failure α},
      a.Ensures s.stored (fun _ k' => k'.Mirrored setup.naming none)
        (fun k' => k'.Mirrored setup.naming none) →
      a.outcome.ComesTo s result s' → s'.stored.Mirrored setup.naming none :=
    fun ensures came =>
      (ensures.outcome (fun _ _ h => h) fun _ _ h => h : Program.Ensures _ _
        fun _ k' => k'.Mirrored setup.naming none).of_comesTo came
  cases came with
  | create came => exact either (createRule_mirrors h _) came
  | update came => exact either (updateRule_mirrors h _ _) came
  | delete came => exact either (deleteRule_mirrors h _) came
  | pass came => exact ((runPass_mirrors (.refl h)).of_comesTo came).mirrored
  | runByHand asked ran =>
    rename_i id _ s₁
    have same : s₁.stored = s.stored :=
      (Program.Asks.ensures_kept (trigger_asks (P := fun r => r.leavesData = true)
        (fun r made => Request.leavesData_of_ofTrigger made) id).outcome).of_comesTo asked
    rw [← same] at h
    exact ((manualRuns_mirrors s₁.board.manual (.refl h)).of_comesTo ran).mirrored

/-! ## All states -/

/-- The states of a system in which the catalogue refuses nothing without a reason. It starts
without rules and tables. Operations are applied one after the other, each where there is something
that carries out jobs or where there is not, and everything that is not stored can change at any
time. -/
inductive Occurs (setup : Setup) : State → Prop
  | start (clock : Clock) (engine : Engine) (empty : engine.tables = []) :
      Occurs setup (setup.start clock engine)
  | apply {s s' : State} (hasRuntime : Bool) (operation : Operation) (h : Occurs setup s)
      (came : operation.ComesTo { setup with hasRuntime } s s') : Occurs setup s'
  | meanwhile {s s' : State} (h : Occurs setup s) (same : s'.stored = s.stored) : Occurs setup s'

theorem Occurs.mirrored (h : Occurs setup s) : s.stored.Mirrored setup.naming none := by
  induction h with
  | start clock engine empty =>
    have none_stored : ∀ id, (setup.start clock engine).stored.catalog.get? id = none :=
      fun _ => rfl
    refine ⟨Catalog.indexed_empty, rfl, fun id e found => ?_, fun id e found => ?_,
      fun name rows found => ?_⟩
    · cases found
    · cases found
    · have tables : (setup.start clock engine).stored.tables = [] := empty
      rw [tables] at found
      cases found
  | apply hasRuntime operation _ came ih =>
    exact came.mirrored ih
  | meanwhile _ same ih => rwa [same]

/-- Any operations can be applied one after the other. -/
theorem Occurs.applyAll (h : Occurs setup s) (operations : List Operation) :
    Occurs setup (operations.foldl (Operation.apply setup) s) :=
  List.foldlRecOn (motive := Occurs setup) _ _ h fun s hs operation _ =>
    .apply setup.hasRuntime operation hs (operation.comesTo_apply s)

/-- In every state the table of a rule is there just if its row says that it was refreshed. The row
has the number of rows of the table then, and these are of different known users. Every table
belongs to a row. -/
theorem rows_mirror_tables {setup : Setup} {s : State} (h : Occurs setup s) :
    (∀ e ∈ s.catalog.list,
      ((s.engine.table? e.segment.table).isSome = true ↔
        e.segment.lastRefreshedAt.isSome = true) ∧
      ∀ rows, s.engine.table? e.segment.table = some rows →
        e.segment.rowCount = rows.length ∧ rows.users.Nodup ∧ none ∉ rows.users) ∧
    ∀ name, (s.engine.table? name).isSome = true →
      ∃ e ∈ s.catalog.list, e.segment.table = name := by
  have mirrored := h.mirrored
  refine ⟨fun e he => ?_, fun name there => ?_⟩
  · have mirrors := mirrored.mirrors e.id e (mirrored.indexed.mem_list.mp he) nofun
    refine ⟨?_, fun rows found => ?_⟩
    · exact Bool.eq_iff_iff.mp mirrors.written.symm
    · have set := (mirrored.owned _ rows found).1
      exact ⟨mirrors.count rows found, set.distinct, set.known⟩
  · obtain ⟨rows, found⟩ := Option.isSome_iff_exists.mp there
    obtain ⟨-, id, present, same⟩ := mirrored.owned name rows found
    obtain ⟨e, stored⟩ := Option.isSome_iff_exists.mp present
    obtain ⟨he, -⟩ := mirrored.indexed.get?_eq_some.mp stored
    exact ⟨e, he, (mirrored.named id e stored).trans same⟩

/-- A rule and one that is built on it were created and run. -/
private def firstRefresh : State :=
  let day : Date := ⟨2024, 5, 1, by decide⟩
  let engine : Engine :=
    { transactions :=
        [⟨some "ann", 150.0, day, 1, "UPI", none⟩, ⟨none, 50.0, day, 1, "UPI", none⟩] }
  let upi : RuleDraft :=
    { name := "upi", conditions := [.of "transaction_type" "=" (.text "UPI")] }
  let same : RuleDraft := { name := "same", composition := some ⟨[RuleId.ofNat 1], .union⟩ }
  [.create upi, .create same, .pass].foldl (Operation.apply {})
    (({} : Setup).start (.still ⟨0, 0⟩) engine)

/-- From then on no table can be written that is there, and queries find no data. -/
private def refusing : State :=
  { firstRefresh with
    engine :=
      { firstRefresh.engine with
        failQueries := true
        failingWrites := firstRefresh.engine.tables.map Prod.fst } }

/-- The first rule was run once more, and the second one was deleted. -/
private def refusedRefresh : State :=
  [.runByHand (RuleId.ofNat 1), .delete (RuleId.ofNat 2)].foldl (Operation.apply {}) refusing

theorem rows_mirror_tables_refused : Occurs {} refusedRefresh ∧
    ∃ e ∈ refusedRefresh.catalog.list, ∃ rows ∈ refusedRefresh.engine.table? e.segment.table,
      rows ≠ [] ∧ e.segment.rowCount = rows.length ∧ rows.users.Nodup := by
  have first : Occurs {} firstRefresh := (Occurs.start _ _ rfl).applyAll _
  have failing : Occurs {} refusing := .meanwhile first rfl
  have occurs : Occurs {} refusedRefresh := failing.applyAll _
  obtain ⟨e, he, rows, found, some_rows⟩ : ∃ e ∈ refusedRefresh.catalog.list,
      ∃ rows ∈ refusedRefresh.engine.table? e.segment.table, rows ≠ [] := by
    decide +kernel
  obtain ⟨count, distinct, -⟩ := ((rows_mirror_tables occurs).1 e he).2 rows found
  exact ⟨occurs, e, he, rows, found, some_rows, count, distinct⟩

end Cohort
