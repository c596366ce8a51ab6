import Cohort.Proofs.Manager.History
import Cohort.Proofs.Scheduler.Pool

/-!
# Runs never wait for each other in a circle

A run that waits holds at most a slot and locks of rules that depend on the one it waits for. Who
waits for a slot holds nothing, and who waits for a first lock holds no lock. So following who
waits for whom, one comes from rule to rule along dependencies, and where these close no circle one
comes to an errand that can go on.

## Main definitions

* `Worker.Waits`, `Worker.GoesOn` — an errand has to wait, or it can go on
* `Pool.WaitsFor` — an errand waits for what another one holds
* `State.KeepsDependencies` — no rule gets a row or other dependencies

## Main results

* `Pool.Orderly.exists_goesOn` — of the errands that are not done, one can go on
* `Pool.Orderly.not_waitsFor_circle` — no errand waits for itself through others
* `runs_never_deadlock` — both, in every pool that comes about over an acyclic catalogue
-/

namespace Cohort

open Relation

variable {setup : Setup} {dependsOn : RuleId → RuleId → Prop} {s : State} {p : Pool} {w w' : Worker}
  {r : Request} {id : RuleId} {i j : Nat}

/-! ## Waiting -/

namespace Worker

/-- The errand has to wait for a slot or for a lock. -/
def Waits (w : Worker) (s : State) : Prop := ∃ r, w.next? = some r ∧ s.blocks r = true

/-- The errand is not done, and it does not have to wait. -/
def GoesOn (w : Worker) (s : State) : Prop := ∃ r, w.next? = some r ∧ s.blocks r = false

end Worker

/-- What the request asks for is held. -/
def Request.AsksFor (h : Share) : Request → Prop
  | .takeSlot => 0 < h.slots
  | .lock id | .lockNested id => id ∈ h.locks
  | _ => False

/-- An errand has to wait, and what it waits for is with another one, or also with it. -/
def Pool.WaitsFor (p : Pool) (i j : Nat) : Prop :=
  ∃ w w' r, p.workers[i]? = some w ∧ p.workers[j]? = some w' ∧ w.next? = some r ∧
    p.state.blocks r = true ∧ r.AsksFor w'.share

theorem Worker.Orderly.admits (orderly : w.Orderly dependsOn) (asks : w.next? = some r) :
    (Protocol.locking dependsOn w.errand.slots).Admits w.share r := by
  obtain ⟨next, left⟩ := Worker.exists_rest_eq_ask asks
  have follows := orderly.follows
  rw [left] at follows
  exact (Program.follows_ask.mp follows).1

/-- Who is done holds nothing. -/
theorem Worker.Orderly.share_eq (orderly : w.Orderly dependsOn) (done : w.next? = none) :
    w.share = {} := by
  have follows := orderly.follows
  rw [Worker.rest_eq_done done] at follows
  exact (Program.follows_pure ()).mp follows

/-- Who holds a lock and waits, waits for the lock of a rule that the locked ones depend on. -/
theorem Worker.Orderly.lockNested_of_holds (orderly : w.Orderly dependsOn)
    (asks : w.next? = some r) (waits : s.blocks r = true) {l : RuleId} (holds : l ∈ w.share.locks) :
    ∃ d, r = .lockNested d ∧ d ∈ s.locks ∧ TransGen dependsOn l d := by
  have admitted := orderly.admits asks
  cases r <;> simp [State.blocks] at waits
  case takeSlot =>
    rw [show w.share = {} from admitted] at holds
    cases holds
  case lock id =>
    rw [show w.share = { slots := w.errand.slots } from admitted] at holds
    cases holds
  case lockNested d => exact ⟨d, rfl, waits, admitted.2 l holds⟩

/-- Where nothing is locked, who waits holds nothing either: it waits for a slot. -/
theorem Worker.Orderly.share_eq_of_unlocked (orderly : w.Orderly dependsOn)
    (asks : w.next? = some r) (waits : s.blocks r = true) (unlocked : s.locks = []) :
    s.slots = 0 ∧ w.share = {} := by
  have admitted := orderly.admits asks
  cases r <;> simp [State.blocks, unlocked] at waits
  exact ⟨waits, admitted⟩

namespace Pool.Orderly

/-- Who waits for a lock, waits for an errand that has it. -/
theorem exists_holder (h : p.Orderly setup dependsOn) (locked : id ∈ p.state.locks) :
    ∃ w ∈ p.workers, id ∈ w.share.locks :=
  List.mem_flatMap.mp (h.locks.subset locked)

/-- If a lock is held, then one that nobody can be waiting for in turn: that of a rule that does not
depend on any other locked rule. -/
theorem exists_last_lock (acyclic : ∀ a, ¬ TransGen dependsOn a a) {locks : List RuleId}
    (some_held : locks ≠ []) : ∃ l ∈ locks, ∀ d ∈ locks, ¬ TransGen dependsOn l d := by
  have irrefl : Std.Irrefl (flip (TransGen dependsOn)) := ⟨acyclic⟩
  have trans : IsTrans RuleId (flip (TransGen dependsOn)) := ⟨fun _ _ _ hab hbc => hbc.trans hab⟩
  have wf : WellFounded (flip (TransGen dependsOn)) := Finite.wellFounded_of_trans_of_irrefl _
  obtain ⟨first, held⟩ := List.exists_mem_of_ne_nil _ some_held
  obtain ⟨l, hl, last⟩ := wf.has_min {l | l ∈ locks} ⟨first, held⟩
  exact ⟨l, hl, fun d hd => last d hd⟩

/-- Of the errands that are not done, one can go on. -/
theorem exists_goesOn (h : p.Orderly setup dependsOn) (acyclic : ∀ a, ¬ TransGen dependsOn a a)
    (hw : w ∈ p.workers) (unfinished : w.next? ≠ none) : ∃ w ∈ p.workers, w.GoesOn p.state := by
  by_contra stuck
  have all_wait : ∀ w ∈ p.workers, ∀ r, w.next? = some r → p.state.blocks r = true := by
    intro w hw r asks
    by_contra goes_on
    exact stuck ⟨w, hw, r, asks, Bool.eq_false_iff.mpr goes_on⟩
  by_cases unlocked : p.state.locks = []
  -- Nothing is locked, so that all wait for slots; but who has the slots holds nothing.
  · have nothing : ∀ w ∈ p.workers, w.share = {} := by
      intro w hw
      cases asks : w.next? with
      | none => exact (h.workers w hw).share_eq asks
      | some r =>
        exact ((h.workers w hw).share_eq_of_unlocked asks (all_wait w hw r asks) unlocked).2
    obtain ⟨r, asks⟩ := Option.ne_none_iff_exists'.mp unfinished
    have taken : p.state.slots = 0 :=
      ((h.workers w hw).share_eq_of_unlocked asks (all_wait w hw r asks) unlocked).1
    have none_held : (p.workers.map fun w => w.share.slots).sum = 0 :=
      List.sum_eq_zero fun n hn => by
        obtain ⟨w, hw, rfl⟩ := List.mem_map.mp hn
        rw [nothing w hw]
    have total := h.slots
    have enough : 0 < setup.running.slots := Nat.lt_of_lt_of_le Nat.one_pos (Nat.le_max_right _ _)
    omega
  -- Of the errands with locks, the one with the last lock waits for none of the others.
  · obtain ⟨l, held, last⟩ := exists_last_lock acyclic unlocked
    obtain ⟨w, hw, holds⟩ := h.exists_holder held
    have orderly := h.workers w hw
    cases asks : w.next? with
    | none =>
      rw [orderly.share_eq asks] at holds
      cases holds
    | some r =>
      obtain ⟨d, -, locked, depends⟩ :=
        orderly.lockNested_of_holds asks (all_wait w hw r asks) holds
      exact last d locked depends

/-- Along those who wait for each other, one comes from what the first one asks for to what the
last one holds. -/
theorem reach_of_waitsFor (h : p.Orderly setup dependsOn) (waits : TransGen p.WaitsFor i j)
    {w w' : Worker} (hw : p.workers[i]? = some w) (hw' : p.workers[j]? = some w')
    (holds : w.share ≠ {}) : ∃ r d x, w.next? = some r ∧ p.state.blocks r = true ∧
      (r = .lock d ∨ r = .lockNested d) ∧ ReflTransGen dependsOn d x ∧ x ∈ w'.share.locks := by
  induction waits generalizing w' with
  | @single j first =>
    obtain ⟨x, y, r, hx, hy, asks, blocked, held⟩ := first
    obtain rfl := Option.some.inj (hx.symm.trans hw)
    obtain rfl := Option.some.inj (hy.symm.trans hw')
    have admitted := (h.workers x (List.mem_of_getElem? hx)).admits asks
    cases r <;> simp [State.blocks] at blocked
    case takeSlot => exact absurd admitted holds
    case lock d =>
      exact ⟨_, d, d, asks, by simpa [State.blocks] using blocked, .inl rfl, .refl, held⟩
    case lockNested d =>
      exact ⟨_, d, d, asks, by simpa [State.blocks] using blocked, .inr rfl, .refl, held⟩
  | @tail j k _ last ih =>
    obtain ⟨x, y, r', hx, hy, asks', blocked', held'⟩ := last
    obtain rfl := Option.some.inj (hy.symm.trans hw')
    obtain ⟨r, d, l, asks, blocked, first, reach, holds_l⟩ := ih hx
    -- The one before the last holds a lock, so it asks for one that follows it.
    obtain ⟨d', rfl, -, depends⟩ := (h.workers x (List.mem_of_getElem? hx)).lockNested_of_holds
      asks' blocked' holds_l
    exact ⟨r, d, d', asks, blocked, first, reach.trans depends.to_reflTransGen, held'⟩

/-- No errand waits for itself through others. -/
theorem not_waitsFor_circle (h : p.Orderly setup dependsOn)
    (acyclic : ∀ a, ¬ TransGen dependsOn a a) (i : Nat) : ¬ TransGen p.WaitsFor i i := by
  intro circle
  obtain ⟨k, -, last⟩ := TransGen.tail'_iff.mp circle
  obtain ⟨-, w, r, -, hw, -, -, held⟩ := last
  have holds : w.share ≠ {} := by
    intro nothing
    rw [nothing] at held
    cases r <;> simp [Request.AsksFor] at held
  obtain ⟨r, d, x, asks, blocked, first, reach, holds_x⟩ := h.reach_of_waitsFor circle hw hw holds
  obtain ⟨d', rfl, -, depends⟩ :=
    (h.workers w (List.mem_of_getElem? hw)).lockNested_of_holds asks blocked holds_x
  have same : d' = d := by simpa using first
  exact acyclic x (depends.trans_left (same ▸ reach))

end Pool.Orderly

/-! ## Main result -/

/-- Nobody else touches the locks and the slots, and no rule gets a row or other dependencies. -/
structure State.KeepsDependencies (s s' : State) : Prop where
  holdings : s.SameHoldings s'
  rows : ∀ id e', s'.catalog.get? id = some e' →
    ∃ e, s.catalog.get? id = some e ∧ e'.parents = e.parents

theorem Catalog.Indexed.dependsWithin {c : Catalog} (indexed : c.Indexed) :
    c.DependsWithin (DependsOn c.list) := by
  intro id e found p hp
  obtain ⟨he, rfl⟩ := indexed.get?_eq_some.mp found
  exact .of_mem he hp

theorem Pool.Reachable.orderly_of_keepsDependencies {s₀ : State}
    (reachable : p.Reachable setup State.KeepsDependencies s₀) (unlocked : s₀.locks = [])
    (free : s₀.slots = setup.running.slots) (indexed : s₀.catalog.Indexed) :
    p.Orderly setup (DependsOn s₀.catalog.list) :=
  reachable.orderly unlocked free indexed.dependsWithin fun _ _ same =>
    ⟨same.holdings.1, same.holdings.2, fun within => within.of_kept same.rows⟩

/-- Whichever runs, passes and deletions are on their way over a catalogue without cycles, with
however many slots, however they take turns and wherever they are cancelled: if any of them is not
done, one of them can go on, and who waits for whom closes no circle. -/
theorem runs_never_deadlock (setup : Setup) {s₀ : State} {p : Pool} (unlocked : s₀.locks = [])
    (free : s₀.slots = setup.running.slots) (indexed : s₀.catalog.Indexed)
    (acyclic : Acyclic s₀.catalog.list)
    (reachable : p.Reachable setup State.KeepsDependencies s₀) :
    ((∃ w ∈ p.workers, w.next? ≠ none) → ∃ w ∈ p.workers, w.GoesOn p.state) ∧
      ∀ i, ¬ Relation.TransGen p.WaitsFor i i := by
  have orderly := reachable.orderly_of_keepsDependencies unlocked free indexed
  exact ⟨fun ⟨w, hw, unfinished⟩ => orderly.exists_goesOn acyclic hw unfinished,
    orderly.not_waitsFor_circle acyclic⟩

/-! ## One slot for three errands -/

private def oneSlot : Setup := { running := { maxConcurrentRuns := 1 } }

/-- A rule, and another one that combines it. -/
private def combinedRules : State :=
  Operation.apply oneSlot
    (Operation.apply oneSlot (oneSlot.start (.still ⟨0, 0⟩) {})
      (.create { name := "cards", conditions := [.of "transaction_type" "=" (.text "CARD")] }))
    (.create { name := "all", composition := some ⟨[.ofNat 1], .union⟩ })

/-- A run of the combined rule, which computes the other one first; a run of that rule, which waits
for the slot; and a deletion of the combined rule, which waits for its lock. -/
private def combinedPool : Pool :=
  let p := (Pool.mk combinedRules []).add oneSlot (.run (.ofNat 2) none)
  let p := (p.add oneSlot (.run (.ofNat 1) none)).add oneSlot (.delete (.ofNat 2))
  p.turns (List.replicate 10 0 ++ [1, 2, 2, 2])

theorem runs_never_deadlock_one_slot :
    (combinedPool.workers.map fun w => w.next?.any combinedPool.state.blocks) =
        [false, true, true] ∧
      (∃ w ∈ combinedPool.workers, w.GoesOn combinedPool.state) ∧
      ∀ i, ¬ Relation.TransGen combinedPool.WaitsFor i i := by
  have reachable : combinedPool.Reachable oneSlot State.KeepsDependencies combinedRules := by
    unfold combinedPool
    exact .turns (.add (.add (.add .start _) _) _) _
  have created : Reachable oneSlot (fun _ _ => False) combinedRules := by
    unfold combinedRules
    exact .apply _ (.apply _ (.start _ _))
  have sound := (created.regular fun _ _ never => never.elim).sound
  obtain ⟨progress, no_circle⟩ := runs_never_deadlock oneSlot (by decide +kernel)
    (by decide +kernel) sound.indexed sound.acyclic reachable
  have unfinished : (combinedPool.workers.any fun w => w.next?.isSome) = true := by decide +kernel
  obtain ⟨w, hw, asks⟩ := List.any_eq_true.mp unfinished
  exact ⟨by decide +kernel, progress ⟨w, hw, Option.isSome_iff_ne_none.mp asks⟩, no_circle⟩

end Cohort
