import Cohort.Proofs.Run.Mirror
import Cohort.Proofs.Scheduler.Accounts

/-!
# Deletions are final

A run reads the row of its rule when it begins and writes the table when it ends, so a run that was
underway could bring back a table that was dropped meanwhile. The lock of the rule prevents this: a
run that may still write has the lock and has read the row under it, and who waits for the lock
finds no row any more. Here one deletion is followed through a pool of any number of runs, passes
and deletions, and beyond its end.

## Main definitions

* `State.LeavesGone` — what is gone for good is not given to anybody else
* `Pool.Deletes` — a deletion on its way, and after its end
* `Pool.Deleting` — the accounts of all workers, and what the deletion has done so far

## Main results

* `Pool.Deleting.step` — a request of any worker keeps what is known of the deletion
* `deletion_is_final` — after a deletion that succeeded the table is not there, and it stays so
-/

namespace Cohort

variable {setup : Setup} {table : RuleId → String} {id : RuleId} {r : Request} {s s' s₀ : State}

/-! ## One deletion -/

/-- What is more, the identifier of a rule is given to no other one when the rule is gone, and
nobody else writes its table. -/
structure State.LeavesGone (table : RuleId → String) (id : RuleId) (s s' : State) : Prop
    extends State.KeepsNames table s s' where
  row : s.catalog.get? id = none → s'.catalog.get? id = none
  table : s.engine.table? (table id) = none → s'.engine.table? (table id) = none

/-- What is left of a program after its turn: it makes one request, unless it has to wait. -/
def Program.turn {α : Type} (s : State) : Program α → Program α
  | .done result => .done result
  | .ask r next => if s.blocks r then .ask r next else next (s.perform r).1

/-- A deletion on its way in a pool, and what is left of it with its result. It begins with its
first request, in any pool that can come about. Errands begin, take turns and are cancelled as
before, also after its end. -/
inductive Pool.Deletes (setup : Setup) (table : RuleId → String) (s₀ : State) (id : RuleId)
    (i : Nat) : Program (Except Failure Entry) → Pool → Prop
  | begin {p : Pool} (before : p.Reachable setup (State.KeepsNames table) s₀)
      (called : p.workers[i]? = some ⟨.delete id, (Errand.delete id).program setup, {}⟩) :
      Deletes setup table s₀ id i ((deleteRule setup id).outcome.turn p.state) (p.turn i)
  | add {left : Program (Except Failure Entry)} {p : Pool}
      (before : Deletes setup table s₀ id i left p) (errand : Errand) :
      Deletes setup table s₀ id i left (p.add setup errand)
  | turn {left : Program (Except Failure Entry)} {p : Pool}
      (before : Deletes setup table s₀ id i left p) (j : Nat) :
      Deletes setup table s₀ id i (if j = i then left.turn p.state else left) (p.turn j)
  | cancel {left : Program (Except Failure Entry)} {p : Pool}
      (before : Deletes setup table s₀ id i left p) (j : Nat) :
      Deletes setup table s₀ id i left (p.cancel j)
  | meanwhile {left : Program (Except Failure Entry)} {p : Pool} {s' : State}
      (before : Deletes setup table s₀ id i left p)
      (change : State.LeavesGone table id p.state s') :
      Deletes setup table s₀ id i left { p with state := s' }

namespace Pool

variable {p : Pool} {i j : Nat} {w : Worker} {custody : Nat → Custody} {errand : Errand}
  {share : Share} {left : Program (Except Failure Entry)}

theorem Deletes.reachable (deletes : p.Deletes setup table s₀ id i left) :
    p.Reachable setup (State.KeepsNames table) s₀ := by
  induction deletes with
  | begin before _ => exact before.turn i
  | add _ errand ih => exact ih.add errand
  | turn _ j ih => exact ih.turn j
  | cancel _ j ih => exact ih.cancel j
  | meanwhile _ change ih => exact ih.meanwhile change.toKeepsNames

/-- The accounts of all workers, and what a deletion has done so far. -/
structure Deleting (table : RuleId → String) (id : RuleId) (i : Nat)
    (left : Program (Except Failure Entry)) (p : Pool) (custody : Nat → Custody) : Prop
    extends p.Accounted table id custody where
  worker : ∃ share, p.workers[i]? = some ⟨.delete id, left >>= fun _ => pure (), share⟩
  deletes : left.Follows (.custody table id) (custody i) fun result x =>
    result.isOk = true → x = .removed
  dropped : custody i = .dropped ∨ custody i = .removed → p.state.engine.table? (table id) = none
  removed : custody i = .removed → p.state.catalog.get? id = none ∧
    ∀ (j : Nat) (w : Worker), p.workers[j]? = some w → custody j ≠ .read

/-- Two workers do not hold one lock. -/
theorem Orderly.lock_unique {dependsOn : RuleId → RuleId → Prop} {w' : Worker}
    (orderly : p.Orderly setup dependsOn) (hi : p.workers[i]? = some w)
    (hj : p.workers[j]? = some w') (own : id ∈ w.share.locks) (own' : id ∈ w'.share.locks) :
    i = j := by
  have held : (p.workers.flatMap fun w => w.share.locks).Nodup :=
    orderly.locks.nodup_iff.mp orderly.distinct
  have apart := List.pairwise_iff_getElem.mp (List.nodup_flatMap.mp held).2
  obtain ⟨listed, rfl⟩ := List.getElem?_eq_some_iff.mp hi
  obtain ⟨listed', rfl⟩ := List.getElem?_eq_some_iff.mp hj
  rcases Nat.lt_trichotomy i j with before | same | after
  · exact absurd own' (apart i j listed listed' before own)
  · exact same
  · exact absurd own (apart j i listed' listed after own')

namespace Deleting

theorem begin (h : p.Accounted table id custody) (distinct : Function.Injective table)
    (called : p.workers[i]? = some ⟨.delete id, (Errand.delete id).program setup, {}⟩) :
    p.Deleting table id i (deleteRule setup id).outcome (Function.update custody i .apart) := by
  have same : ⟨p.state, p.workers.set i ⟨.delete id, (Errand.delete id).program setup, {}⟩⟩ = p := by
    obtain ⟨listed, worker⟩ := List.getElem?_eq_some_iff.mp called
    rw [← worker, List.set_getElem_self]
  have accounted : p.Accounted table id (Function.update custody i .apart) := by
    have put := h.put (j := i) (w := ⟨.delete id, (Errand.delete id).program setup, {}⟩) h.names
      ((Errand.delete id).program_keeps distinct) (x := .apart) (by simp [Custody.HasLock])
    rwa [same] at put
  refine ⟨accounted, ⟨_, called⟩, ?_, ?_, ?_⟩
  · rw [Function.update_self]
    refine (deleteRule_keeps id).outcome (fun _ _ gone _ => gone rfl) ?_
    rintro _ _ - ⟨⟩
  · simp
  · simp

variable {next : r.Answer → Program Unit}

/-- Nobody can write the table between the two steps of the deletion, because it has the lock, and
nobody can write it afterwards, because there is no row to read. -/
theorem ne_read (h : p.Deleting table id i left custody)
    (orderly : p.Orderly setup fun _ _ => True)
    (gone : custody i = .dropped ∨ custody i = .removed) (found : p.workers[j]? = some w) :
    custody j ≠ .read := by
  intro read
  rcases gone with dropped | removed
  · obtain ⟨share, worker⟩ := h.worker
    have own := h.locked i _ worker (.inr (.inr dropped))
    obtain rfl := orderly.lock_unique worker found own (h.locked j w found (.inr (.inl read)))
    rw [dropped] at read
    cases read
  · exact (h.removed removed).2 j w found read

/-- What was dropped stays so with every request. -/
theorem table?_eq_none (h : p.Deleting table id i left custody)
    (orderly : p.Orderly setup fun _ _ => True)
    (gone : custody i = .dropped ∨ custody i = .removed)
    (found : p.workers[j]? = some ⟨errand, .ask r next, share⟩) :
    (p.state.perform r).2.engine.table? (table id) = none := by
  refine State.perform_table?_eq_none (h.dropped gone) ?_
  rintro rows rfl
  have admitted := (Program.follows_ask.mp (h.follows j _ found)).1
  exact h.ne_read orderly gone found (admitted rfl)

/-- A request of any worker keeps what is known of the deletion. -/
theorem step (h : p.Deleting table id i left custody) (orderly : p.Orderly setup fun _ _ => True)
    (found : p.workers[j]? = some ⟨errand, .ask r next, share⟩)
    (goes_on : p.state.blocks r = false) {custody' : Nat → Custody}
    (account : custody' =
      Function.update custody j ((custody j).after table id r (p.state.perform r).1))
    {left' : Program (Except Failure Entry)}
    (worker : ∃ share, (p.turn j).workers[i]? =
      some ⟨.delete id, left' >>= fun _ => pure (), share⟩)
    (deletes : left'.Follows (.custody table id) (custody' i) fun result x =>
      result.isOk = true → x = .removed) :
    (p.turn j).Deleting table id i left' custody' := by
  have admitted := (Program.follows_ask.mp (h.follows j _ found)).1
  have missing : p.state.catalog.get? id = none → (p.turn j).state.catalog.get? id = none := by
    rw [turn_eq found goes_on]
    exact State.perform_get?_eq_none h.names.indexed admitted
  have dropped : custody i = .dropped ∨ custody i = .removed →
      (p.turn j).state.engine.table? (table id) = none := by
    intro gone
    rw [turn_eq found goes_on]
    exact h.table?_eq_none orderly gone found
  have own : custody' j = (custody j).after table id r (p.state.perform r).1 := by
    rw [account, Function.update_self]
  have other : ∀ k, k ≠ j → custody' k = custody k := fun k apart => by
    rw [account, Function.update_of_ne apart]
  have state : (p.turn j).state = (p.state.perform r).2 := by rw [turn_eq found goes_on]
  have others : ∀ k, k ≠ j → (p.turn j).workers[k]? = p.workers[k]? := fun k apart => by
    rw [turn_eq found goes_on]
    exact List.getElem?_set_ne apart.symm
  refine ⟨account ▸ h.turn found goes_on, worker, deletes, fun gone => ?_, fun removed => ?_⟩
  · rcases eq_or_ne i j with rfl | apart
    · rw [own] at gone
      rcases gone with gone | gone
      · rcases Custody.table?_of_dropped gone with before | now
        · exact dropped (.inl before)
        · rwa [state]
      · rcases Custody.get?_of_removed gone with before | ⟨before, -, -⟩
        · exact dropped (.inr before)
        · exact dropped (.inl before)
    · rw [other i apart] at gone
      exact dropped gone
  · -- The row is gone, and it was so before or the deletion has just taken it out.
    have gone : (custody i = .dropped ∨ custody i = .removed) ∧
        (p.turn j).state.catalog.get? id = none ∧
          (i ≠ j → p.state.catalog.get? id = none) := by
      rcases eq_or_ne i j with rfl | apart
      · rcases Custody.get?_of_removed (own ▸ removed) with before | ⟨before, -, now⟩
        · exact ⟨.inr before, missing (h.removed before).1, fun never => absurd rfl never⟩
        · exact ⟨.inl before, state ▸ now, fun never => absurd rfl never⟩
      · have before := (other i apart) ▸ removed
        have row := (h.removed before).1
        exact ⟨.inr before, missing row, fun _ => row⟩
    obtain ⟨before, row, row_before⟩ := gone
    refine ⟨row, fun k w found' read => ?_⟩
    rcases eq_or_ne k j with rfl | apart
    · rcases Custody.get?_of_read (own ▸ read) with read_before | there
      · exact h.ne_read orderly before found read_before
      · rw [row_before ?_] at there
        · cases there
        · rintro rfl
          rw [removed] at read
          cases read
    · rw [others k apart] at found'
      exact h.ne_read orderly before found' (other k apart ▸ read)

theorem turn (h : p.Deleting table id i left custody)
    (orderly : p.Orderly setup fun _ _ => True) (j : Nat) :
    ∃ custody', (p.turn j).Deleting table id i (if j = i then left.turn p.state else left)
      custody' := by
  rcases eq_or_ne j i with rfl | apart
  · rw [if_pos rfl]
    obtain ⟨share, worker⟩ := h.worker
    cases left with
    | done result =>
      have ended : p.turn j = p := by
        have rest : p.workers[j]? = some ⟨.delete id, .done (), share⟩ := worker
        simp [Pool.turn, rest]
      rw [ended]
      exact ⟨custody, h⟩
    | ask r next =>
      have found : p.workers[j]? =
          some ⟨.delete id, .ask r fun answer => next answer >>= fun _ => pure (), share⟩ := worker
      rw [Program.turn]
      split
      · next waits =>
        have same : p.turn j = p := by simp [Pool.turn, found, waits]
        rw [same]
        exact ⟨custody, h⟩
      · next goes_on =>
        have goes_on := Bool.eq_false_iff.mpr goes_on
        refine ⟨_, h.step orderly found goes_on rfl ⟨share.after r, ?_⟩ ?_⟩
        · rw [turn_eq found goes_on]
          exact List.getElem?_set_self (List.getElem?_eq_some_iff.mp found).1
        · rw [Function.update_self]
          exact (Program.follows_ask.mp h.deletes).2 _ _ ⟨rfl, State.perform_tells h.names r⟩
  · rw [if_neg apart]
    rcases p.turn_eq_self_or j with same | ⟨errand, r, next, share, found, goes_on⟩
    · rw [same]
      exact ⟨custody, h⟩
    · refine ⟨_, h.step orderly found goes_on rfl ?_ ?_⟩
      · rw [turn_eq found goes_on, List.getElem?_set_ne apart]
        exact h.worker
      · rw [Function.update_of_ne apart.symm]
        exact h.deletes

/-- A deletion cannot be cancelled. -/
theorem cancel (h : p.Deleting table id i left custody) (j : Nat) :
    ∃ custody', (p.cancel j).Deleting table id i left custody' := by
  rcases p.cancel_eq_self_or j with same | ⟨errand, r, next, share, found, canStop, stop⟩
  · rw [same]
    exact ⟨custody, h⟩
  have apart : i ≠ j := by
    rintro rfl
    obtain ⟨share, worker⟩ := h.worker
    rw [worker] at found
    obtain ⟨rfl, -⟩ := Worker.mk.inj (Option.some.inj found)
    cases canStop
  have kept : Function.update custody j .apart i = custody i := Function.update_of_ne apart ..
  have same_tables : (r.giveUp p.state).engine = p.state.engine := by cases r <;> rfl
  have same_rows : (r.giveUp p.state).catalog = p.state.catalog := by cases r <;> rfl
  refine ⟨_, h.toAccounted.cancel found canStop stop, ?_, ?_, ?_, ?_⟩
  · rw [cancel_eq found canStop stop, List.getElem?_set_ne apart.symm]
    exact h.worker
  · rw [kept]
    exact h.deletes
  · rw [kept, cancel_eq found canStop stop, same_tables]
    exact h.dropped
  · rw [kept, cancel_eq found canStop stop, same_rows]
    refine fun removed => ⟨(h.removed removed).1, fun k w found' => ?_⟩
    rcases eq_or_ne k j with rfl | other
    · rw [Function.update_self]
      decide
    · rw [Function.update_of_ne other]
      exact (h.removed removed).2 k w (by rwa [List.getElem?_set_ne other.symm] at found')

theorem add (h : p.Deleting table id i left custody) (distinct : Function.Injective table)
    (errand : Errand) : ∃ custody', (p.add setup errand).Deleting table id i left custody' := by
  obtain ⟨share, worker⟩ := h.worker
  have listed : i < p.workers.length := (List.getElem?_eq_some_iff.mp worker).1
  have kept : Function.update custody p.workers.length .apart i = custody i :=
    Function.update_of_ne (Nat.ne_of_lt listed) ..
  refine ⟨_, h.toAccounted.add distinct errand, ⟨share, add_getElem? worker⟩, ?_, ?_, ?_⟩
  · rw [kept]
    exact h.deletes
  · rw [kept]
    exact h.dropped
  · rw [kept]
    refine fun removed => ⟨(h.removed removed).1, fun k w found => ?_⟩
    rcases eq_or_ne k p.workers.length with rfl | other
    · rw [Function.update_self]
      decide
    · rw [Function.update_of_ne other]
      exact (h.removed removed).2 k w (getElem?_of_add found other)

theorem of_meanwhile (h : p.Deleting table id i left custody)
    (change : State.LeavesGone table id p.state s') :
    Deleting table id i left { p with state := s' } custody where
  toAccounted := h.toAccounted.of_meanwhile change.names
  worker := h.worker
  deletes := h.deletes
  dropped gone := change.table (h.dropped gone)
  removed gone := ⟨change.row (h.removed gone).1, (h.removed gone).2⟩

end Deleting

theorem Deletes.deleting (deletes : p.Deletes setup table s₀ id i left)
    (distinct : Function.Injective table) (names : s₀.catalog.NamesTables table)
    (unlocked : s₀.locks = []) (free : s₀.slots = setup.running.slots) :
    ∃ custody, p.Deleting table id i left custody := by
  have orderly : ∀ {p : Pool}, p.Reachable setup (State.KeepsNames table) s₀ →
      p.Orderly setup fun _ _ => True := fun reachable =>
    (reachable.mono fun _ _ kept => kept.holdings).orderly_of_sameHoldings unlocked free
  induction deletes with
  | begin before called =>
    obtain ⟨custody, h⟩ := before.accounted distinct names id
    have turned := (Deleting.begin h distinct called).turn (orderly before) i
    rwa [if_pos rfl] at turned
  | add _ errand ih =>
    obtain ⟨custody, h⟩ := ih
    exact h.add distinct errand
  | turn before j ih =>
    obtain ⟨custody, h⟩ := ih
    exact h.turn (orderly before.reachable) j
  | cancel _ j ih =>
    obtain ⟨custody, h⟩ := ih
    exact h.cancel j
  | meanwhile _ change ih =>
    obtain ⟨custody, h⟩ := ih
    exact ⟨custody, h.of_meanwhile change⟩

end Pool

/-- Whichever runs, passes and deletions are on their way, and however they take turns: once a
deletion has returned with the row that it took out, the table of the rule is not there, and no
later step brings it back. -/
theorem deletion_is_final (setup : Setup) {table : RuleId → String} {s₀ : State} {id : RuleId}
    {i : Nat} {removed : Entry} {p : Pool} (distinct : Function.Injective table)
    (names : s₀.catalog.NamesTables table) (unlocked : s₀.locks = [])
    (free : s₀.slots = setup.running.slots)
    (deletes : p.Deletes setup table s₀ id i (.done (.ok removed))) :
    p.state.engine.table? (table id) = none ∧ p.state.catalog.get? id = none := by
  obtain ⟨custody, h⟩ := deletes.deleting distinct names unlocked free
  have gone : custody i = .removed := (Program.follows_pure _).mp h.deletes rfl
  exact ⟨h.dropped (.inr gone), (h.removed gone).1⟩

/-! ## A run that is in progress when its rule is deleted -/

/-- Workers take turns in an order, and a deletion is followed. -/
def Pool.follow (i : Nat) (order : List Nat) (x : Program (Except Failure Entry) × Pool) :
    Program (Except Failure Entry) × Pool :=
  order.foldl (fun x j => (if j = i then x.1.turn x.2.state else x.1, x.2.turn j)) x

theorem Pool.Deletes.follow {i : Nat} {x : Program (Except Failure Entry) × Pool}
    (deletes : x.2.Deletes setup table s₀ id i x.1) (order : List Nat) :
    (Pool.follow i order x).2.Deletes setup table s₀ id i (Pool.follow i order x).1 := by
  induction order generalizing x with
  | nil => exact deletes
  | cons j rest ih => exact ih (x := (_, _)) (deletes.turn j)

/-- The result of a program that is done. -/
def Program.result? {α : Type} : Program α → Option α
  | .done result => some result
  | .ask .. => none

theorem Program.eq_done_of_result? {α : Type} {p : Program α} {result : α}
    (done : p.result? = some result) : p = .done result := by
  cases p with
  | done _ => exact congrArg _ (Option.some.inj done)
  | ask r next => cases done

private def cardsOnly : State :=
  Operation.apply {} (Setup.start {} (.still ⟨0, 0⟩) {})
    (.create { name := "cards", conditions := [.of "transaction_type" "=" (.text "CARD")] })

/-- A run of the rule has read the row when the rule is to be deleted. -/
private def readPool : Pool :=
  (((Pool.mk cardsOnly []).add {} (.run (.ofNat 1) none)).add {} (.delete (.ofNat 1))).turns
    [0, 0, 0, 0]

/-- The deletion waits for the lock until the run has written the table. Another run begins, which
waits for the lock until the deletion is done. -/
private def deletedPool : Program (Except Failure Entry) × Pool :=
  let waiting := Pool.follow 1 ([1, 1] ++ List.replicate 12 0)
    ((deleteRule {} (.ofNat 1)).outcome.turn readPool.state, readPool.turn 1)
  Pool.follow 1 ([2, 1, 2] ++ List.replicate 4 1 ++ List.replicate 8 2)
    (waiting.1, waiting.2.add {} (.run (.ofNat 1) none))

theorem deletion_is_final_during_run :
    deletedPool.2.state.engine.writes = 1 ∧
      (∃ removed, deletedPool.1 = .done (.ok removed) ∧ deletedPool.2.Deletes {}
        ({} : Settings.Naming).tableName cardsOnly (.ofNat 1) 1 (.done (.ok removed))) ∧
      deletedPool.2.state.engine.table? "segment_output_1" = none := by
  have created : Reachable {} (fun _ _ => False) cardsOnly := by
    unfold cardsOnly
    exact .apply _ (.start _ _)
  have names := (created.regular fun _ _ never => never.elim).namesTables
  have before : readPool.Reachable {} (State.KeepsNames
      ({} : Settings.Naming).tableName) cardsOnly := by
    unfold readPool
    exact .turns (.add (.add .start _) _) _
  have deletes : deletedPool.2.Deletes {} ({} : Settings.Naming).tableName cardsOnly (.ofNat 1) 1
      deletedPool.1 := by
    unfold deletedPool
    exact .follow (.add (.follow (.begin before rfl) _) _) _
  have succeeded : (deletedPool.1.result?.bind Except.toOption).isSome = true := by decide +kernel
  obtain ⟨removed, ended⟩ : ∃ removed, deletedPool.1 = .done (.ok removed) := by
    obtain ⟨removed, found⟩ := Option.isSome_iff_exists.mp succeeded
    obtain ⟨result, done, ok⟩ := Option.bind_eq_some_iff.mp found
    cases result with
    | error failure => cases ok
    | ok entry => exact ⟨entry, Program.eq_done_of_result? done⟩
  rw [ended] at deletes
  have final := deletion_is_final {} (Settings.Naming.tableName_injective _) names (by decide +kernel)
    (by decide +kernel) deletes
  exact ⟨by decide +kernel, ⟨removed, ended, deletes⟩, final.1⟩

end Cohort
