import Cohort.Proofs.Manager.History
import Cohort.Proofs.Run.Course
import Cohort.Proofs.Run.Depth
import Cohort.Proofs.Run.Waiting

/-!
# Runs by themselves

Over every catalogue, with cycles or with dependencies that are not there, and whatever fails on the
way, a run by itself comes to an end, it runs each rule at most once, and it touches no rule but its
own and those that this one depends on. If it fails, its own rule is left as it was, unless the
failure says that the table was written.

## Main results

* `execute_orderly` — the events of a run by itself
* `execute_atomic` — what a run by itself leaves alone
-/

namespace Cohort

variable {setup : Setup} {id : RuleId} {silent onDemand : Bool} {s s' computed : State}
  {result : Except Failure Nat} {inner : List Event} {refreshed : List RuleId}

/-- A run by itself never goes deeper than there are rules, so that no bound on its depth plays a
part, and if it goes on alone it never waits. Whatever fails meanwhile, it tells of its own start
and end and, in between, of runs that are framed in the same way. Each rule starts at most once and
ends just as often, and only the rule itself and those that it depends on start. -/
theorem execute_orderly (setup : Setup) (id : RuleId) :
    (∀ depth, RuleId.count < depth →
      runRule setup depth [] [] id = runRule setup (RuleId.count + 1) [] [] id) ∧
    (∀ s : State, s.locks.Sublist [id] → (execute setup id).outcome.NeverWaits s) ∧
    ∀ (s s' : State) (result : Except Failure Nat), s.catalog.Indexed →
      (execute setup id).outcome.EndsAmong (Disturbs true) s result s' →
      ∃ told inner, s'.log = s.log ++ told ∧
        told = { kind := .runStarted, rule := id } :: inner ++ [Event.ofRun id result] ∧
        Nested inner ∧ (startsOf told).Nodup ∧ (endsOf told).Perm (startsOf told) ∧
        ∀ a ∈ startsOf told, Relation.ReflTransGen (DependsOn s.catalog.list) id a := by
  refine ⟨fun depth deep => by rw [runRule_deep setup deep], fun s own => execute_neverWaits own,
    fun s s' result indexed ends => ?_⟩
  obtain ⟨s₁, ⟨refreshed, inner, computed, course⟩, change⟩ :=
    (execute_course setup true indexed id).of_endsAmong ends
  have conducts := course.conducts List.not_mem_nil List.not_mem_nil
  have same_result : (result.map (·, refreshed)).map (·.1) = result := by
    cases result <;> rfl
  rw [same_result] at conducts
  exact ⟨_, inner, change.still.log.trans conducts.log, rfl, course.orderly.nested,
    conducts.orderly.once, conducts.orderly.nested.ends_perm,
    fun a ha => (conducts.orderly.allowed a ha).1⟩

/-- A system with two rules that combine each other. -/
private def eachOther : State :=
  { ({} : Setup).start (.still ⟨0, 0⟩) {} with
    catalog := { rows := [(.ofNat 1, .combining 1 [2]), (.ofNat 2, .combining 2 [1])] } }

theorem execute_orderly_circular :
    eachOther.catalog.list.map Entry.parents = [[.ofNat 2], [.ofNat 1]] ∧
      runRule {} (RuleId.count + 2) [] [] (.ofNat 1) =
        runRule {} (RuleId.count + 1) [] [] (.ofNat 1) ∧
      (execute {} (.ofNat 1)).outcome.NeverWaits eachOther ∧
      ((execute {} (.ofNat 1)).outcome.run eachOther).1 = .error (.dependencyRefresh (.ofNat 1)
        (.ofNat 2) (.dependencyRefresh (.ofNat 2) (.ofNat 1) (.execution (.ofNat 1) .cycle))) ∧
      ∃ told, ((execute {} (.ofNat 1)).outcome.run eachOther).2.log = told ∧
        startsOf told = [.ofNat 1, .ofNat 2] ∧ (endsOf told).Perm [.ofNat 1, .ofNat 2] := by
  obtain ⟨deep, waits, tells⟩ := execute_orderly {} (.ofNat 1)
  obtain ⟨told, inner, log, -, -, -, ends, -⟩ := tells eachOther _ _
    ⟨by decide +kernel, by decide +kernel⟩
    ((execute {} (.ofNat 1)).outcome.endsAmong_run (fun s => ⟨.refl s, fun _ => rfl⟩) eachOther)
  have starts : startsOf told = [.ofNat 1, .ofNat 2] := by
    have empty : eachOther.log = [] := rfl
    rw [empty, List.nil_append] at log
    rw [← log]
    decide +kernel
  exact ⟨by decide +kernel, deep _ (by omega), waits eachOther (by decide +kernel),
    by decide +kernel, told, log, starts, starts ▸ ends⟩

/-- Where the run of a rule has computed its rows, the rule itself has not been touched. -/
theorem Course.untouched {result : Except Failure (Nat × List RuleId)} {running : List RuleId}
    (h : Course onDemand silent s.catalog running refreshed id s inner computed result s')
    (indexed : s.catalog.Indexed) (distinct : s.catalog.TablesDistinct) :
    Untouched s computed id :=
  h.keeps.untouched indexed distinct fun ran =>
    (h.orderly.allowed id ran).2.1 List.mem_cons_self

/-- All that a run by itself touches are the rule and those that it depends on. -/
theorem Course.keeps_reached {result : Except Failure (Nat × List RuleId)} {running : List RuleId}
    (h : Course onDemand silent s.catalog running refreshed id s inner computed result s') :
    Keeps (Relation.ReflTransGen (DependsOn s.catalog.list) id) s s' := by
  refine (h.keeps.mono fun a ran => ?_).trans (h.ends.keeps.mono fun a same => ?_)
  · exact (h.orderly.allowed a ran).1.to_reflTransGen
  · exact same ▸ .refl

/-- The tables that were combined are those that are there after the run, but for the table of the
rule itself, which was as before. -/
theorem Course.tableOf {result : Except Failure (Nat × List RuleId)} {running : List RuleId}
    (h : Course onDemand silent s.catalog running refreshed id s inner computed result s')
    (indexed : s.catalog.Indexed) (distinct : s.catalog.TablesDistinct) :
    computed.tableOf = fun a => if a = id then s.tableOf id else s'.tableOf a := by
  funext a
  split
  · next own => rw [own, (h.untouched indexed distinct).tableOf]
  · next other =>
    exact (h.ends.keeps.untouched (h.keeps.indexed indexed)
      (h.keeps.tablesDistinct indexed distinct) other).tableOf.symm

/-- A run by itself that fails leaves the row and the table of its rule as they were. Only if the
metadata could not be written down, the table has the rows that were computed, and as many as the
failure says. Whether the run fails or succeeds, all rules that the rule does not depend on keep
their rows and tables, and of the others no more changes than what a refresh writes down. -/
theorem execute_atomic (indexed : s.catalog.Indexed) (distinct : s.catalog.TablesDistinct)
    (ends : (execute setup id).outcome.EndsAmong (Disturbs silent) s result s') :
    (∀ failure, result = .error failure → failure.isPartial = false → Untouched s s' id) ∧
    (∀ rule rows cause, result = .error (.metadataUpdate rule rows cause) → rule = id ∧
      ∃ e written, s.catalog.get? id = some e ∧ s'.catalog.get? id = some e ∧
        s'.engine.table? e.segment.table = some written ∧ written.length = rows ∧
        e.segment.source.CanYield silent s.engine.transactions
          (fun a => if a = id then s.tableOf id else s'.tableOf a) written) ∧
    (∀ a, ¬ Relation.ReflTransGen (DependsOn s.catalog.list) id a → Untouched s s' a) ∧
    s.catalog.SameButRefreshed s'.catalog := by
  obtain ⟨s₁, ⟨refreshed, inner, computed, course⟩, change⟩ :=
    (execute_course setup silent indexed id).of_endsAmong ends
  have same := change.still.toSameData
  have keeps := course.keeps_reached.trans same.keeps
  refine ⟨?_, ?_, fun a other => keeps.untouched indexed distinct other, keeps.rows⟩
  · rintro failure rfl whole
    cases course.ends with
    | unwritten _ same₁ =>
      exact (course.untouched indexed distinct).trans ((same₁.trans same).untouched id)
    | unrecorded => cases whole
  · rintro rule rows cause rfl
    cases course.ends with
    | unwritten whole => cases whole
    | unrecorded writes catalog =>
      obtain ⟨row, -⟩ := course.untouched indexed distinct
      have tables := course.tableOf indexed distinct
      refine ⟨rfl, _, _, row.symm.trans writes.found, ?_, ?_, rfl, ?_⟩
      · rw [same.catalog, catalog, writes.found]
      · rw [same.table?, writes.table?, if_pos rfl]
      · have yields := writes.yields
        rwa [tables, course.keeps.transactions, ← same.tableOf] at yields

/-- A system with one transaction of each kind, one rule for each of them and one rule for both,
whose catalogue writes down two refreshes and then refuses three times. -/
private def refusingRefresh : State :=
  let day : Date := ⟨2024, 6, 1, by decide⟩
  let transactions : List Transaction :=
    [⟨some "ann", 10.0, day, 1, "UPI", none⟩, ⟨some "ann", 20.0, day, 1, "CARD", none⟩]
  let upi := Condition.of "transaction_type" "=" (.text "UPI")
  let card := Condition.of "transaction_type" "=" (.text "CARD")
  let started := ({} : Setup).start (.still ⟨0, 0⟩) { transactions }
  let system := Operation.apply {} (Operation.apply {} (Operation.apply {} started
    (.create { name := "a", conditions := [upi] }))
    (.create { name := "b", conditions := [card] }))
    (.create { name := "c", conditions := [upi, card] })
  { system with faults := { refresh := ⟨2, 3⟩ } }

theorem execute_atomic_refusing :
    refusingRefresh.catalog.Indexed ∧ refusingRefresh.catalog.TablesDistinct ∧
      ((execute {} (.ofNat 3)).outcome.run refusingRefresh).1 =
        .error (.metadataUpdate (.ofNat 3) 1 (.catalog .connectionReset)) ∧
      ∃ e written, refusingRefresh.catalog.get? (.ofNat 3) = some e ∧
        ((execute {} (.ofNat 3)).outcome.run refusingRefresh).2.catalog.get? (.ofNat 3) = some e ∧
        ((execute {} (.ofNat 3)).outcome.run refusingRefresh).2.engine.table? e.segment.table =
          some written ∧ written.length = 1 := by
  have indexed : refusingRefresh.catalog.Indexed := ⟨by decide +kernel, by decide +kernel⟩
  have distinct : refusingRefresh.catalog.TablesDistinct := by
    unfold Catalog.TablesDistinct
    decide +kernel
  have failed : ((execute {} (.ofNat 3)).outcome.run refusingRefresh).1 =
      .error (.metadataUpdate (.ofNat 3) 1 (.catalog .connectionReset)) := by decide +kernel
  obtain ⟨-, partly, -⟩ := execute_atomic indexed distinct
    (Disturbs.of_run (execute {} (.ofNat 3)).outcome refusingRefresh)
  obtain ⟨-, e, written, before, after, table, count, -⟩ := partly _ _ _ failed
  exact ⟨indexed, distinct, failed, e, written, before, after, table, count⟩

end Cohort
