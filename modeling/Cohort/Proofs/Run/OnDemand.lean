import Cohort.Proofs.Run.Atomicity

/-!
# Everything on demand

Where no table was ever written, the run of a rule by itself computes the tables of all rules that
it depends on, each of them once, and then its own. What it leaves in them is what a pass over all
rules would leave there: the denotations of the rules. This holds for every sound catalogue, and for
rules that are not active as well.

## Main results

* `execute_computes_all` — a run over tables that were never written
-/

namespace Cohort

variable {setup : Setup} {s s' : State} {id a : RuleId} {silent : Bool} {inner told : List Event}
  {computed : State} {refreshed refreshed' : List RuleId}

/-- What a listed rule depends on is listed. -/
theorem Catalog.Sound.isSome_of_reached {c : Catalog} (sound : c.Sound)
    (listed : (c.get? id).isSome) (reached : Relation.ReflTransGen (DependsOn c.list) id a) :
    (c.get? a).isSome := by
  rcases Relation.ReflTransGen.cases_tail reached with rfl | ⟨b, -, e, he, -, ha⟩
  · exact listed
  · exact sound.present e he a ha

/-- The events of a run by itself that succeeds. -/
theorem Course.succeeded {onDemand : Bool} {c : Catalog} {count : Nat}
    (h : Course onDemand silent c [] [] id s inner computed (.ok (count, refreshed)) s') :
    ∃ told, Conducts (Reached c [] [] id) s told s' ∧
      Refreshes onDemand (DependsOn c.list) [] s.catalog told refreshed s'.catalog ∧
      id ∈ startsOf told :=
  ⟨_, h.conducts List.not_mem_nil List.not_mem_nil, h.refreshes count refreshed rfl, by simp⟩

/-- Where no table was ever written, the runs on demand reach all that there is to reach. -/
theorem Refreshes.reaches {c c' : Catalog}
    (refreshes : Refreshes true (DependsOn c.list) [] c told refreshed' c') (sound : c.Sound)
    (unwritten : ∀ e ∈ c.list, e.segment.isMaterialized = false) (listed : (c.get? id).isSome)
    (started : id ∈ startsOf told) (reached : Relation.ReflTransGen (DependsOn c.list) id a) :
    a ∈ startsOf told := by
  induction reached with
  | refl => exact started
  | @tail b p before depends ih =>
    have row := sound.isSome_of_reached listed (before.tail depends)
    obtain ⟨e, found⟩ := Option.isSome_iff_exists.mp row
    have never := unwritten e (sound.indexed.get?_eq_some.mp found).1
    have now_refreshed := refreshes.covers rfl b ih p depends ⟨e, found, never⟩
    exact ((refreshes.counts p).mp now_refreshed).resolve_left List.not_mem_nil

/-- A run over tables that were never written, which goes on alone while nothing fails, never waits.
It succeeds, and it runs the rule and all that it depends on, each of them once and with success.
Each of their tables has the denotation of its rule then, and no other row and no other table has
changed. -/
theorem execute_computes_all (setup : Setup) {s : State} {id : RuleId} (sound : s.catalog.Sound)
    (tables : (s.catalog.list.map fun e => e.segment.table).Nodup)
    (unwritten : ∀ e ∈ s.catalog.list, e.segment.isMaterialized = false)
    (healthy : s.engine.Healthy) (faults : s.faults = {})
    (onDemand : setup.running.refreshStale = true) (unlocked : s.locks = [])
    (listed : (s.catalog.get? id).isSome) :
    (execute setup id).outcome.NeverWaits s ∧
    ∃ s' told,
      (execute setup id).outcome.run s =
        (.ok (meaning s.catalog.list s.engine.transactions id).length, s') ∧
      (∀ a, Relation.ReflTransGen (DependsOn s.catalog.list) id a →
        ∃ e r, s.catalog.get? a = some e ∧ s'.catalog.get? a = some (e.refreshed r) ∧
          s'.engine.table? e.segment.table =
            some (meaning s.catalog.list s.engine.transactions a)) ∧
      (∀ a, ¬ Relation.ReflTransGen (DependsOn s.catalog.list) id a →
        s'.catalog.get? a = s.catalog.get? a) ∧
      (∀ name, (∀ a e, Relation.ReflTransGen (DependsOn s.catalog.list) id a →
        s.catalog.get? a = some e → e.segment.table ≠ name) →
        s'.engine.table? name = s.engine.table? name) ∧
      s'.log = s.log ++ told ∧ Nested told ∧ (startsOf told).Nodup ∧
      (∀ a, a ∈ startsOf told ↔ Relation.ReflTransGen (DependsOn s.catalog.list) id a) ∧
      ∀ event ∈ told, event.kind = .runStarted ∨ event.kind = .runSucceeded := by
  refine ⟨execute_neverWaits (unlocked ▸ List.nil_sublist _), ?_⟩
  have distinct : s.catalog.TablesDistinct := fun e he e' he' same =>
    congrArg Entry.id (List.inj_on_of_nodup_map tables he he' same)
  have steady : Steady s.catalog s.engine.transactions s :=
    ⟨sound.indexed, .refl _, rfl, healthy, faults⟩
  -- Everything that the rule depends on is computed on demand.
  have operands : ∀ a, Relation.TransGen (DependsOn s.catalog.list) id a →
      Ready setup s.catalog s.engine.transactions s a := by
    intro a reached
    have row := sound.isSome_of_reached listed reached.to_reflTransGen
    obtain ⟨e, found⟩ := Option.isSome_iff_exists.mp row
    exact .inr ⟨onDemand, e, found, unwritten e (sound.indexed.get?_eq_some.mp found).1⟩
  have succeeds : (execute setup id).outcome.Yields s fun result s' =>
      (∃ rows, result = .ok rows) ∧ Advances s.catalog s.engine.transactions s s' :=
    Action.outcome_yields.mpr ((execute_yields sound distinct steady listed operands).of_success
      fun rows s' done => ⟨⟨rows, rfl⟩, done.1⟩)
  obtain ⟨⟨rows, ok⟩, advances⟩ := Program.yields_iff.mp succeeds
  have ends := Disturbs.of_run (execute setup id).outcome s
  obtain ⟨s₁, ⟨refreshed, inner, computed, course⟩, change⟩ :=
    (execute_course setup _ sound.indexed id).of_endsAmong ends
  generalize hrun : (execute setup id).outcome.run s = final at ok advances course change
  obtain ⟨result, s'⟩ := final
  obtain rfl : result = .ok rows := ok
  have same := change.still.toSameData
  obtain ⟨told, conducts, refreshes, started⟩ := course.succeeded
  replace conducts := conducts.then_still change.still
  rw [onDemand, ← same.catalog] at refreshes
  -- What has started is what can be reached.
  have reached : ∀ a, a ∈ startsOf told ↔ Relation.ReflTransGen (DependsOn s.catalog.list) id a :=
    fun a => ⟨fun ran => (conducts.orderly.allowed a ran).1,
      refreshes.reaches sound unwritten listed started⟩
  -- A table that has been written now, and was not before, is fresh.
  have denotes : ∀ a e r, s.catalog.get? a = some e → s'.catalog.get? a = some (e.refreshed r) →
      s'.engine.table? e.segment.table = some (meaning s.catalog.list s.engine.transactions a) := by
    intro a e r before after
    rcases advances.each a with ⟨e', found, -, table⟩ | ⟨row, -⟩
    · obtain rfl := Option.some.inj (after.symm.trans found)
      exact table
    · have never := unwritten e (sound.indexed.get?_eq_some.mp before).1
      have same_row : e.refreshed r = e := Option.some.inj (by rw [← after, row, before])
      rw [← same_row] at never
      cases never
  refine ⟨s', told, ?_, fun a ha => ?_, fun a ha => ?_, fun name apart => ?_, conducts.log,
    conducts.orderly.nested, conducts.orderly.once, reached, refreshes.succeeds⟩
  · obtain ⟨e, r, before, after⟩ := refreshes.renews id started
    obtain ⟨e', written, found, table, rfl⟩ := course.ends.exists_table
    have unchanged := course.keeps.others id fun ran =>
      (course.orderly.allowed id ran).2.1 List.mem_cons_self
    obtain rfl : e' = e := Option.some.inj (found.symm.trans (unchanged.trans before))
    have denoted := denotes id e' r before after
    rw [same.table?, table] at denoted
    rw [Option.some.inj denoted]
  · obtain ⟨e, r, before, after⟩ := refreshes.renews a ((reached a).mpr ha)
    exact ⟨e, r, before, after, denotes a e r before after⟩
  · exact conducts.keeps.others a fun ran => ha ((reached a).mp ran)
  · exact conducts.keeps.tables name fun a e ran => apart a e ((reached a).mp ran)

/-- A system with four rules of which none was run: one for each kind of transactions, one that
unites these and is not active, and one for the users that are in the first and in the third. -/
private def diamond : State :=
  let day : Date := ⟨2024, 7, 1, by decide⟩
  let transactions : List Transaction :=
    [⟨some "ann", 10.0, day, 1, "UPI", none⟩, ⟨some "bob", 20.0, day, 1, "CARD", none⟩]
  let upi := Condition.of "transaction_type" "=" (.text "UPI")
  let card := Condition.of "transaction_type" "=" (.text "CARD")
  let united : Composition := ⟨[.ofNat 1, .ofNat 2], .union⟩
  let common : Composition := ⟨[.ofNat 1, .ofNat 3], .intersection⟩
  let started := ({} : Setup).start (.still ⟨0, 0⟩) { transactions }
  Operation.apply {} (Operation.apply {} (Operation.apply {} (Operation.apply {} started
    (.create { name := "a", conditions := [upi] }))
    (.create { name := "b", conditions := [card] }))
    (.create { name := "c", composition := some united, active := false }))
    (.create { name := "d", composition := some common })

theorem execute_computes_all_diamond :
    diamond.catalog.list.map Entry.parents =
        [[], [], [.ofNat 1, .ofNat 2], [.ofNat 1, .ofNat 3]] ∧
      (execute {} (.ofNat 4)).outcome.NeverWaits diamond ∧
      ∃ s' told, ((execute {} (.ofNat 4)).outcome.run diamond).2 = s' ∧
        s'.log = diamond.log ++ told ∧ startsOf told = [.ofNat 4, .ofNat 1, .ofNat 3, .ofNat 2] ∧
        ∀ event ∈ told, event.kind = .runStarted ∨ event.kind = .runSucceeded := by
  have reachable : Reachable {} (fun _ _ => False) diamond := by
    unfold diamond
    exact .apply _ (.apply _ (.apply _ (.apply _ (.start _ _))))
  have sound := (reachable.regular fun _ _ never => never.elim).sound
  obtain ⟨waits, s', told, run, -, -, -, log, -, -, -, succeeds⟩ :=
    @execute_computes_all {} diamond (.ofNat 4) sound (by decide +kernel) (by decide +kernel)
      ⟨by decide +kernel, by decide +kernel, by decide +kernel⟩ (by decide +kernel)
      (by decide +kernel) (by decide +kernel) (by decide +kernel)
  have starts : startsOf ((execute {} (.ofNat 4)).outcome.run diamond).2.log =
      startsOf diamond.log ++ [.ofNat 4, .ofNat 1, .ofNat 3, .ofNat 2] := by decide +kernel
  rw [run, log, startsOf_append] at starts
  exact ⟨by decide +kernel, waits, s', told, by rw [run], log, List.append_cancel_left starts,
    succeeds⟩

end Cohort
