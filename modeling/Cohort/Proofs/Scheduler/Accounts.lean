import Cohort.Proofs.Manager.History
import Cohort.Proofs.Run.Custody
import Cohort.Proofs.Scheduler.Pool

/-!
# Accounts of a rule in a pool

For one rule, each worker of a pool has an account of how far it has come with it. The accounts say
only what is so: who is said to have the lock has it, a table that is said to be dropped is not
there when it was dropped, and a row that is said to be read was there.

## Main definitions

* `Catalog.NamesTables` — each row names the table of its rule
* `Custody.HasLock` — the account says that the lock is held
* `Pool.Accounted` — each worker keeps to its account

## Main results

* `Custody.table?_of_dropped`, `Custody.get?_of_removed`, `Custody.get?_of_read` — what an account
  says of the state
* `Pool.Accounted.turn`, `Pool.Accounted.cancel`, `Pool.Accounted.add` — accounts go along with the
  pool
* `Pool.Reachable.accounted` — each worker of a pool that comes about keeps to an account
-/

namespace Cohort

variable {setup : Setup} {table : RuleId → String} {id a : RuleId} {r : Request} {x : Custody}
  {s s' s₀ : State}

/-! ## Rows and tables -/

/-- Each row is stored under its identifier and names the table that belongs to it. -/
structure Catalog.NamesTables (table : RuleId → String) (c : Catalog) : Prop where
  indexed : c.Indexed
  named : ∀ id e, c.get? id = some e → e.segment.table = table id

/-- The rules of a system, once they were created, have the tables that its settings name. -/
theorem Catalog.Regular.namesTables {naming : Settings.Naming} {c : Catalog}
    (h : c.Regular naming) : c.NamesTables naming.tableName where
  indexed := h.sound.indexed
  named id e found := by
    obtain ⟨listed, rfl⟩ := h.sound.indexed.get?_eq_some.mp found
    exact (h.named e listed).table

namespace State

/-- A program that adds and replaces no row leaves rows as they are, as far as their tables are
concerned. -/
theorem exists_get?_of_perform (indexed : s.catalog.Indexed)
    (admitted : (Protocol.custody table id).Admits x r) {e' : Entry}
    (there : (s.perform r).2.catalog.get? a = some e') :
    ∃ e, s.catalog.get? a = some e ∧ e'.segment.table = e.segment.table := by
  by_cases kept : r.leavesDefinitions = true
  · obtain ⟨e, found, same⟩ := ((s.perform_definitions kept).2 indexed).exists_get? there
    refine ⟨e, found, ?_⟩
    rw [← Entry.definition_table, ← same, Entry.definition_table]
  · cases r <;> simp [Request.leavesDefinitions] at kept
    case allocateId => exact ⟨e', there, rfl⟩
    case insertRow e => exact admitted.elim
    case replaceRow e expected => exact admitted.elim
    case removeRow b =>
      rcases removeRow_cases s b with ⟨_, -, same⟩ | ⟨_, -, rows⟩
      · exact ⟨e', same ▸ there, rfl⟩
      · rw [Catalog.get?_of_erase rows] at there
        split at there
        · cases there
        · exact ⟨e', there, rfl⟩

theorem perform_namesTables (names : s.catalog.NamesTables table)
    (admitted : (Protocol.custody table id).Admits x r) :
    (s.perform r).2.catalog.NamesTables table where
  indexed := perform_indexed names.indexed r
  named a e' there := by
    obtain ⟨e, found, same⟩ := exists_get?_of_perform names.indexed admitted there
    rw [same, names.named a e found]

/-- A row that is not there is not added. -/
theorem perform_get?_eq_none (indexed : s.catalog.Indexed)
    (admitted : (Protocol.custody table id).Admits x r) (missing : s.catalog.get? a = none) :
    (s.perform r).2.catalog.get? a = none := by
  refine Option.eq_none_iff_forall_ne_some.mpr fun e' there => ?_
  obtain ⟨e, found, -⟩ := exists_get?_of_perform indexed admitted there
  rw [missing] at found
  cases found

/-- A table that is not there is not brought back, except by those who write it. -/
theorem perform_table?_eq_none {name : String} (missing : s.engine.table? name = none)
    (not_written : ∀ rows, r ≠ .writeTable name rows) :
    (s.perform r).2.engine.table? name = none := by
  rw [Engine.table?] at missing ⊢
  by_cases kept : r.leavesTables = true
  · rwa [perform_tables kept]
  · cases r <;> simp [Request.leavesTables] at kept
    case writeTable other rows =>
      simp only [perform, Engine.writeTable]
      split
      · exact missing
      · have apart : other ≠ name := fun same => not_written rows (same ▸ rfl)
        simpa [Engine.putTable, Assoc.get?_put, apart] using missing
    case dropTable other =>
      simp only [perform, Engine.dropTable]
      split
      · exact missing
      · simp [Assoc.get?_erase, missing]

/-- The rows that are answered name their tables. -/
theorem perform_tells (names : s.catalog.NamesTables table) (r : Request) :
    r.Tells table (s.perform r).1 := by
  cases r with
  | getRow a => exact names.named a
  | listRows => exact fun e listed => names.named e.id e (names.indexed.mem_list.mp listed)
  | _ => trivial

end State

/-- Nobody else touches the locks and the slots, and all rows name their tables. -/
structure State.KeepsNames (table : RuleId → String) (s s' : State) : Prop where
  holdings : s.SameHoldings s'
  names : s'.catalog.NamesTables table

/-! ## Accounts -/

/-- The lock of the rule is held. -/
def Custody.HasLock (x : Custody) : Prop := x = .locked ∨ x = .read ∨ x = .dropped

namespace Custody

/-- An account says that the lock is held only if it is. -/
theorem HasLock.mem_locks {h : Share} {answer : r.Answer}
    (locked : x.HasLock → id ∈ h.locks) (still : (x.after table id r answer).HasLock) :
    id ∈ (h.after r).locks := by
  have taken : ∀ a, (if a = id then Custody.locked else x).HasLock → id ∈ a :: h.locks := by
    intro a still
    split at still
    · next own => exact own ▸ List.mem_cons_self
    · exact List.mem_cons_of_mem _ (locked still)
  cases r with
  | lock a => exact taken a still
  | lockNested a => exact taken a still
  | unlock a =>
    have other : a ≠ id := by
      rintro rfl
      cases x <;> simp [Custody.after, HasLock] at still
    simp only [Custody.after, other, false_and, if_false] at still
    exact (List.mem_erase_of_ne (Ne.symm other)).mpr (locked still)
  | getRow a =>
    rw [Custody.after] at still
    split at still
    · next read => exact locked (.inl read.2.1)
    · exact locked still
  | dropTable name =>
    rw [Custody.after] at still
    split at still
    · next dropped => exact locked (.inl dropped.2.1)
    · exact locked still
  | removeRow a =>
    rw [Custody.after] at still
    split at still
    · simp [HasLock] at still
    · exact locked still
  | _ => exact locked still

/-- Where the table is dropped, it is gone. -/
theorem table?_of_dropped (dropped : x.after table id r (s.perform r).1 = .dropped) :
    x = .dropped ∨ (s.perform r).2.engine.table? (table id) = none := by
  cases r with
  | dropTable name =>
    rw [Custody.after] at dropped
    split at dropped
    · next gone =>
      obtain ⟨rfl, -, succeeded⟩ := gone
      simp only [State.perform, Engine.dropTable] at succeeded ⊢
      split at succeeded
      · cases succeeded
      · next allowed =>
        rw [if_neg allowed]
        exact .inr (by simp [Engine.table?, Assoc.get?_erase])
    · exact .inl dropped
  | lock a | lockNested a | unlock a | getRow a | removeRow a =>
    rw [Custody.after] at dropped
    split at dropped
    · cases dropped
    · exact .inl dropped
  | _ => exact .inl dropped

/-- Where the row is taken out, it is gone, and the table was dropped before. -/
theorem get?_of_removed (removed : x.after table id r (s.perform r).1 = .removed) :
    x = .removed ∨
      x = .dropped ∧ r = .removeRow id ∧ (s.perform r).2.catalog.get? id = none := by
  cases r with
  | removeRow a =>
    rw [Custody.after] at removed
    split at removed
    · next gone =>
      obtain ⟨rfl, dropped, succeeded⟩ := gone
      refine .inr ⟨dropped, rfl, ?_⟩
      rcases removeRow_cases s a with ⟨_, failed, -⟩ | ⟨_, -, rows⟩
      · rw [failed] at succeeded
        cases succeeded
      · rw [Catalog.get?_of_erase rows, if_pos rfl]
    · exact .inl removed
  | lock a | lockNested a | unlock a | getRow a | dropTable name =>
    rw [Custody.after] at removed
    split at removed
    · cases removed
    · exact .inl removed
  | _ => exact .inl removed

/-- A row is read only if it is there. -/
theorem get?_of_read (read : x.after table id r (s.perform r).1 = .read) :
    x = .read ∨ (s.catalog.get? id).isSome := by
  cases r with
  | getRow a =>
    rw [Custody.after] at read
    split at read
    · next found =>
      obtain ⟨rfl, -, there⟩ := found
      exact .inr there
    · exact .inl read
  | lock a | lockNested a | unlock a | dropTable name | removeRow a =>
    rw [Custody.after] at read
    split at read
    · cases read
    · exact .inl read
  | _ => exact .inl read

end Custody

namespace Errand

/-- Every errand keeps to the protocol, whichever rule is followed. -/
theorem program_keeps (distinct : Function.Injective table) (errand : Errand) :
    (errand.program setup).Follows (.custody table id) .apart fun _ _ => True := by
  cases errand with
  | run a generation =>
    exact (dispatch_keeps distinct a generation).bind fun _ _ _ => (Program.follows_pure _).mpr trivial
  | manual asked => exact (manualRun_keeps distinct asked).mono fun _ _ _ => trivial
  | firing a generation timer =>
    exact (recurringRun_keeps distinct a generation timer).mono fun _ _ _ => trivial
  | pass => exact (runPass_keeps distinct).bind fun _ _ _ => (Program.follows_pure _).mpr trivial
  | delete a =>
    have deletes : (deleteRule setup a).outcome.Follows (.custody table id) .apart fun _ _ => True :=
      (deleteRule_keeps a).outcome (fun _ _ _ => trivial) fun _ _ _ => trivial
    exact deletes.bind fun _ _ _ => (Program.follows_pure _).mpr trivial

end Errand

namespace Pool

variable {p : Pool} {i j : Nat} {w : Worker} {custody : Nat → Custody} {errand : Errand}
  {share : Share}

/-- Each worker keeps to its account, which says only what is so. -/
structure Accounted (table : RuleId → String) (id : RuleId) (p : Pool) (custody : Nat → Custody) :
    Prop where
  names : p.state.catalog.NamesTables table
  follows : ∀ (j : Nat) (w : Worker), p.workers[j]? = some w →
    w.rest.Follows (.custody table id) (custody j) fun _ _ => True
  locked : ∀ (j : Nat) (w : Worker), p.workers[j]? = some w → (custody j).HasLock →
    id ∈ w.share.locks

namespace Accounted

/-- One worker changes, and with it its account. -/
theorem put (h : p.Accounted table id custody) (names : s'.catalog.NamesTables table)
    (follows : w.rest.Follows (.custody table id) x fun _ _ => True)
    (locked : x.HasLock → id ∈ w.share.locks) :
    Accounted table id ⟨s', p.workers.set j w⟩ (Function.update custody j x) := by
  have each : ∀ (k : Nat) (w' : Worker), (p.workers.set j w)[k]? = some w' →
      w'.rest.Follows (.custody table id) (Function.update custody j x k) (fun _ _ => True) ∧
        ((Function.update custody j x k).HasLock → id ∈ w'.share.locks) := by
    intro k w' found
    rcases eq_or_ne j k with rfl | other
    · rw [List.getElem?_set] at found
      obtain ⟨-, rfl⟩ : j < p.workers.length ∧ w = w' := by simpa using found
      rw [Function.update_self]
      exact ⟨follows, locked⟩
    · rw [List.getElem?_set_ne other] at found
      rw [Function.update_of_ne other.symm]
      exact ⟨h.follows k w' found, h.locked k w' found⟩
  exact ⟨names, fun k w' found => (each k w' found).1, fun k w' found => (each k w' found).2⟩

theorem turn (h : p.Accounted table id custody) {next : r.Answer → Program Unit}
    (found : p.workers[j]? = some ⟨errand, .ask r next, share⟩)
    (goes_on : p.state.blocks r = false) :
    (p.turn j).Accounted table id
      (Function.update custody j ((custody j).after table id r (p.state.perform r).1)) := by
  obtain ⟨admitted, rest⟩ := Program.follows_ask.mp (h.follows j _ found)
  rw [turn_eq found goes_on]
  refine h.put (State.perform_namesTables h.names admitted) ?_
    (Custody.HasLock.mem_locks (h.locked j _ found))
  exact rest _ _ ⟨rfl, State.perform_tells h.names r⟩

/-- What is done holds nothing. -/
theorem cancel (h : p.Accounted table id custody) {next : r.Answer → Program Unit}
    (found : p.workers[j]? = some ⟨errand, .ask r next, share⟩)
    (canStop : errand.canStop = true) (stop : r.isStop = true) :
    (p.cancel j).Accounted table id (Function.update custody j .apart) := by
  rw [cancel_eq found canStop stop]
  refine h.put ?_ ((Program.follows_pure ()).mpr trivial) (by simp [Custody.HasLock])
  cases r <;> exact h.names

theorem add (h : p.Accounted table id custody) (distinct : Function.Injective table)
    (errand : Errand) :
    (p.add setup errand).Accounted table id (Function.update custody p.workers.length .apart) := by
  have each : ∀ (k : Nat) (w : Worker), (p.add setup errand).workers[k]? = some w →
      w = ⟨errand, errand.program setup, {}⟩ ∧
          Function.update custody p.workers.length .apart k = .apart ∨
        p.workers[k]? = some w ∧
          Function.update custody p.workers.length .apart k = custody k := by
    intro k w found
    rcases eq_or_ne k p.workers.length with rfl | other
    · obtain rfl : _ = w := by simpa [Pool.add] using found
      exact .inl ⟨rfl, Function.update_self ..⟩
    · exact .inr ⟨getElem?_of_add found other, Function.update_of_ne other ..⟩
  refine ⟨h.names, fun k w found => ?_, fun k w found held => ?_⟩
  · rcases each k w found with ⟨rfl, same⟩ | ⟨before, same⟩
    · rw [same]
      exact errand.program_keeps distinct
    · rw [same]
      exact h.follows k w before
  · rcases each k w found with ⟨-, same⟩ | ⟨before, same⟩
    · simp [same, Custody.HasLock] at held
    · exact h.locked k w before (same ▸ held)

theorem of_meanwhile (h : p.Accounted table id custody) (names : s'.catalog.NamesTables table) :
    Accounted table id { p with state := s' } custody := ⟨names, h.follows, h.locked⟩

end Accounted

/-- In any pool that comes about, every worker keeps to an account. -/
theorem Reachable.accounted (reachable : p.Reachable setup (State.KeepsNames table) s₀)
    (distinct : Function.Injective table) (names : s₀.catalog.NamesTables table) (id : RuleId) :
    ∃ custody, p.Accounted table id custody := by
  induction reachable with
  | start => exact ⟨fun _ => .apart, names, by simp, by simp⟩
  | add _ errand ih =>
    obtain ⟨custody, h⟩ := ih
    exact ⟨_, h.add distinct errand⟩
  | turn _ j ih =>
    obtain ⟨custody, h⟩ := ih
    rcases Pool.turn_eq_self_or _ j with same | ⟨errand, r, next, share, found, goes_on⟩
    · rw [same]
      exact ⟨custody, h⟩
    · exact ⟨_, h.turn found goes_on⟩
  | cancel _ j ih =>
    obtain ⟨custody, h⟩ := ih
    rcases Pool.cancel_eq_self_or _ j with same | ⟨errand, r, next, share, found, canStop, stop⟩
    · rw [same]
      exact ⟨custody, h⟩
    · exact ⟨_, h.cancel found canStop stop⟩
  | meanwhile _ change ih =>
    obtain ⟨custody, h⟩ := ih
    exact ⟨custody, h.of_meanwhile change.names⟩

end Pool

end Cohort
