import Cohort.Proofs.Run.Definitions
import Cohort.Proofs.Run.Waiting
import Cohort.Task

/-!
# Runs side by side

Any number of runs, passes and deletions are on their way at once. They share the slots and the
locks of a state and take turns in any order; a run that waits can be cancelled at any time, and
everything else can change meanwhile. No two runs of one rule are ever underway at once, and there
are never more runs in progress than there are slots.

## Main definitions

* `Errand`, `Worker`, `Pool` — what is on its way, and the state that it shares
* `Pool.Reachable` — the pools that can come about
* `Pool.Orderly` — locks and slots are with those who have taken them, and all are disciplined

## Main results

* `Pool.Reachable.orderly` — all pools that come about are orderly
* `runs_exclude_each_other` — one run of a rule at a time, and no more runs than slots
-/

namespace Cohort

variable {setup : Setup} {dependsOn : RuleId → RuleId → Prop} {meanwhile : State → State → Prop}
  {s s₀ s' : State} {r : Request}

/-! ## Workers -/

/-- What takes locks and slots: a run of a rule, a manual run, the firing of a job, a pass, or the
deletion of a rule. -/
inductive Errand where
  | run (id : RuleId) (generation : Option Nat)
  | manual (asked : ManualRun)
  | firing (id : RuleId) (generation : Nat) (timer : Instant)
  | pass
  | delete (id : RuleId)

namespace Errand

/-- The program of an errand. -/
def program (setup : Setup) : Errand → Program Unit
  | .run id generation => dispatch setup id generation >>= fun _ => pure ()
  | .manual asked => manualRun setup asked
  | .firing id generation timer => recurringRun setup id generation timer
  | .pass => runPass setup >>= fun _ => pure ()
  | .delete id => (deleteRule setup id).outcome >>= fun _ => pure ()

/-- The number of slots that are needed for it. A deletion needs none. -/
def slots : Errand → Nat
  | .delete _ => 0
  | _ => 1

/-- It can be cancelled. A deletion is always carried to its end. -/
def canStop : Errand → Bool
  | .delete _ => false
  | _ => true

theorem program_follows (setup : Setup) (errand : Errand) :
    (errand.program setup).Follows (.locking dependsOn errand.slots) {} fun _ h => h = {} := by
  have nothing : ∀ {α : Type} {p : Program α} {slots : Nat},
      (p.Follows (.locking dependsOn slots) {} fun _ h => h = {}) →
        (p >>= fun _ => pure () : Program Unit).Follows (.locking dependsOn slots) {}
          fun _ h => h = {} := by
    intro α p slots follows
    refine follows.bind ?_
    rintro _ _ rfl
    exact (Program.follows_pure _).mpr rfl
  cases errand with
  | run id generation => exact nothing (dispatch_follows id generation)
  | manual asked => exact manualRun_follows asked
  | firing id generation timer => exact recurringRun_follows id generation timer
  | pass => exact nothing runPass_follows
  | delete id =>
    exact nothing ((deleteRule_follows id).outcome (fun _ _ same => same) fun _ _ same => same)

end Errand

/-- An errand on its way: what is left of it, and what it holds. -/
structure Worker where
  errand : Errand
  rest : Program Unit
  share : Share := {}

namespace Worker

/-- The request that comes next, unless the errand is done. -/
def next? (w : Worker) : Option Request :=
  match w.rest with
  | .ask r _ => some r
  | .done _ => none

theorem exists_rest_eq_ask {w : Worker} (asks : w.next? = some r) :
    ∃ next, w.rest = .ask r next := by
  unfold next? at asks
  split at asks
  · next next left =>
    obtain rfl := Option.some.inj asks
    exact ⟨next, left⟩
  · cases asks

theorem rest_eq_done {w : Worker} (done : w.next? = none) : w.rest = .done () := by
  unfold next? at done
  split at done
  · cases done
  · assumption

/-- It is in the part of a run that goes on by itself, with a slot and under the lock of the
rule. -/
def IsRunning (w : Worker) : Prop := 0 < w.share.slots ∧ w.share.locks ≠ []

instance (w : Worker) : Decidable w.IsRunning :=
  inferInstanceAs (Decidable (_ ∧ _))

/-- What is left of the errand is disciplined and gives back all that it holds. -/
structure Orderly (dependsOn : RuleId → RuleId → Prop) (w : Worker) : Prop where
  guarded : w.share.Guarded
  follows : w.rest.Follows (.locking dependsOn w.errand.slots) w.share fun _ h => h = {}

end Worker

/-- What a run holds after it was cancelled: one that waits for a lock gives back its slot. -/
def Share.giveUp (h : Share) : Request → Share
  | .lock _ => { h with slots := h.slots - 1 }
  | _ => h

/-! ## Pools -/

/-- Errands on their way, and the state that they share. -/
structure Pool where
  state : State
  workers : List Worker

namespace Pool

/-- An errand begins. -/
def add (setup : Setup) (errand : Errand) (p : Pool) : Pool :=
  { p with workers := p.workers ++ [{ errand, rest := errand.program setup }] }

/-- It is the turn of an errand, which makes one request unless it has to wait. -/
def turn (i : Nat) (p : Pool) : Pool :=
  match p.workers[i]? with
  | some ⟨errand, .ask r next, share⟩ =>
    if p.state.blocks r then p
    else
      ⟨(p.state.perform r).2,
        p.workers.set i ⟨errand, next (p.state.perform r).1, share.after r⟩⟩
  | _ => p

/-- Errands take turns in an order. -/
def turns (order : List Nat) (p : Pool) : Pool := order.foldl (fun p i => p.turn i) p

/-- An errand is cancelled, if it can be where it is. -/
def cancel (i : Nat) (p : Pool) : Pool :=
  match p.workers[i]? with
  | some ⟨errand, .ask r _, share⟩ =>
    if errand.canStop && r.isStop then
      ⟨r.giveUp p.state, p.workers.set i ⟨errand, .done (), share.giveUp r⟩⟩
    else p
  | _ => p

/-- The pools that can come about from a state: errands begin, take turns and are cancelled in any
order, and the state can change meanwhile in ways that are given. -/
inductive Reachable (setup : Setup) (meanwhile : State → State → Prop) (s₀ : State) : Pool → Prop
  | start : Reachable setup meanwhile s₀ ⟨s₀, []⟩
  | add {p : Pool} (before : Reachable setup meanwhile s₀ p) (errand : Errand) :
      Reachable setup meanwhile s₀ (p.add setup errand)
  | turn {p : Pool} (before : Reachable setup meanwhile s₀ p) (i : Nat) :
      Reachable setup meanwhile s₀ (p.turn i)
  | cancel {p : Pool} (before : Reachable setup meanwhile s₀ p) (i : Nat) :
      Reachable setup meanwhile s₀ (p.cancel i)
  | meanwhile {p : Pool} {s' : State} (before : Reachable setup meanwhile s₀ p)
      (change : meanwhile p.state s') : Reachable setup meanwhile s₀ { p with state := s' }

variable {p : Pool} {i : Nat} {w w' : Worker} {before after : List Worker} {errand : Errand}
  {share : Share}

theorem Reachable.turns (reachable : Reachable setup meanwhile s₀ p) (order : List Nat) :
    Reachable setup meanwhile s₀ (p.turns order) := by
  induction order generalizing p with
  | nil => exact reachable
  | cons i rest ih => exact ih (reachable.turn i)

theorem add_getElem? (found : p.workers[i]? = some w) :
    (p.add setup errand).workers[i]? = some w :=
  (List.getElem?_append_left (List.getElem?_eq_some_iff.mp found).1).trans found

theorem getElem?_of_add (found : (p.add setup errand).workers[i]? = some w)
    (other : i ≠ p.workers.length) : p.workers[i]? = some w := by
  have listed := (List.getElem?_eq_some_iff.mp found).1
  simp only [add, List.length_append, List.length_singleton] at listed
  rwa [add, List.getElem?_append_left (by omega)] at found

/-- The fewer ways there are for the state to change meanwhile, the fewer pools come about. -/
theorem Reachable.mono {meanwhile' : State → State → Prop}
    (reachable : Reachable setup meanwhile s₀ p)
    (weaker : ∀ s s', meanwhile s s' → meanwhile' s s') : Reachable setup meanwhile' s₀ p := by
  induction reachable with
  | start => exact .start
  | add _ errand ih => exact ih.add errand
  | turn _ i ih => exact ih.turn i
  | cancel _ i ih => exact ih.cancel i
  | meanwhile _ change ih => exact ih.meanwhile (weaker _ _ change)

/-- A turn of an errand that does not have to wait. -/
theorem turn_eq {next : r.Answer → Program Unit}
    (found : p.workers[i]? = some ⟨errand, .ask r next, share⟩)
    (goes_on : p.state.blocks r = false) :
    p.turn i = ⟨(p.state.perform r).2,
      p.workers.set i ⟨errand, next (p.state.perform r).1, share.after r⟩⟩ := by
  simp [turn, found, goes_on]

theorem cancel_eq {next : r.Answer → Program Unit}
    (found : p.workers[i]? = some ⟨errand, .ask r next, share⟩)
    (canStop : errand.canStop = true) (stop : r.isStop = true) :
    p.cancel i = ⟨r.giveUp p.state, p.workers.set i ⟨errand, .done (), share.giveUp r⟩⟩ := by
  simp [cancel, found, canStop, stop]

/-- A turn changes nothing if the errand is done or has to wait. -/
theorem turn_eq_self_or (p : Pool) (i : Nat) : p.turn i = p ∨
    ∃ errand r next share, p.workers[i]? = some ⟨errand, .ask r next, share⟩ ∧
      p.state.blocks r = false := by
  unfold turn
  split
  · next errand r next share found =>
    split
    · exact .inl rfl
    · next goes_on =>
      exact .inr ⟨errand, r, next, share, found, Bool.eq_false_iff.mpr goes_on⟩
  · exact .inl rfl

/-- A cancellation changes nothing unless the errand can be stopped where it is. -/
theorem cancel_eq_self_or (p : Pool) (i : Nat) : p.cancel i = p ∨
    ∃ errand r next share, p.workers[i]? = some ⟨errand, .ask r next, share⟩ ∧
      errand.canStop = true ∧ r.isStop = true := by
  unfold cancel
  split
  · next errand r next share found =>
    split
    · next stops => exact .inr ⟨errand, r, next, share, found, Bool.and_eq_true_iff.mp stops⟩
    · exact .inl rfl
  · exact .inl rfl

/-- One worker takes the place of another. -/
theorem exists_split {workers : List Worker} (found : workers[i]? = some w) (w' : Worker) :
    ∃ before after, workers = before ++ w :: after ∧
      workers.set i w' = before ++ w' :: after := by
  obtain ⟨listed, rfl⟩ := List.getElem?_eq_some_iff.mp found
  obtain ⟨before, after, split, -, put⟩ := List.exists_of_set listed
  exact ⟨before, after, split, put⟩

/-- All that a turn can do. -/
theorem turn_cases (p : Pool) (i : Nat) : p.turn i = p ∨
    ∃ before errand r next share after,
      p.workers = before ++ ⟨errand, .ask r next, share⟩ :: after ∧ p.state.blocks r = false ∧
      p.turn i = ⟨(p.state.perform r).2,
        before ++ ⟨errand, next (p.state.perform r).1, share.after r⟩ :: after⟩ := by
  rcases p.turn_eq_self_or i with same | ⟨errand, r, next, share, found, goes_on⟩
  · exact .inl same
  · obtain ⟨before, after, split, put⟩ :=
      exists_split found ⟨errand, next (p.state.perform r).1, share.after r⟩
    refine .inr ⟨before, errand, r, next, share, after, split, goes_on, ?_⟩
    rw [turn_eq found goes_on, put]

/-- All that a cancellation can do. -/
theorem cancel_cases (p : Pool) (i : Nat) : p.cancel i = p ∨
    ∃ before errand r next share after,
      p.workers = before ++ ⟨errand, .ask r next, share⟩ :: after ∧
      errand.canStop = true ∧ r.isStop = true ∧
      p.cancel i = ⟨r.giveUp p.state, before ++ ⟨errand, .done (), share.giveUp r⟩ :: after⟩ := by
  rcases p.cancel_eq_self_or i with same | ⟨errand, r, next, share, found, canStop, isStop⟩
  · exact .inl same
  · obtain ⟨before, after, split, put⟩ := exists_split found ⟨errand, .done (), share.giveUp r⟩
    refine .inr ⟨before, errand, r, next, share, after, split, canStop, isStop, ?_⟩
    rw [cancel_eq found canStop isStop, put]

/-! ## Orderly pools -/

end Pool

/-- The rows of a catalogue depend on others only as said. -/
def Catalog.DependsWithin (c : Catalog) (dependsOn : RuleId → RuleId → Prop) : Prop :=
  ∀ id e, c.get? id = some e → ∀ p ∈ e.parents, dependsOn id p

/-- Rows that keep their parents, and fewer rows, depend on others as before. -/
theorem Catalog.DependsWithin.of_kept {c c' : Catalog} (h : c.DependsWithin dependsOn)
    (kept : ∀ id e', c'.get? id = some e' → ∃ e, c.get? id = some e ∧ e'.parents = e.parents) :
    c'.DependsWithin dependsOn := by
  intro id e' found p hp
  obtain ⟨e, found, same⟩ := kept id e' found
  exact h id e found p (same ▸ hp)

/-- A disciplined program adds no dependency. -/
theorem State.perform_dependsWithin {slots : Nat} {h : Share}
    (within : s.catalog.DependsWithin dependsOn)
    (admitted : (Protocol.locking dependsOn slots).Admits h r) :
    (s.perform r).2.catalog.DependsWithin dependsOn := by
  have modified : ∀ (id : RuleId) {f : Entry → Entry}, (∀ e, (f e).parents = e.parents) →
      (s.catalog.modify id f).2.DependsWithin dependsOn := by
    intro id f same
    rcases s.catalog.modify_cases id f with ⟨unchanged, -⟩ | ⟨e, c', changed, found, rows, -⟩
    · rwa [unchanged]
    · rw [changed]
      refine within.of_kept fun a e' there => ?_
      rw [Catalog.get?_of_put_at rows] at there
      split at there
      · next own =>
        obtain rfl := Option.some.inj there
        exact ⟨e, own ▸ found, same e⟩
      · exact ⟨e', there, rfl⟩
  by_cases kept : r.leavesCatalog = true
  · rwa [perform_catalog kept]
  · cases r <;> simp [Request.leavesCatalog] at kept
    case allocateId => exact within
    case insertRow e => exact admitted.elim
    case replaceRow e expected => exact admitted.elim
    case removeRow id =>
      rcases removeRow_cases s id with ⟨_, -, same⟩ | ⟨_, -, rows⟩
      · rwa [same]
      · refine within.of_kept fun a e' there => ?_
        rw [Catalog.get?_of_erase rows] at there
        split at there
        · cases there
        · exact ⟨e', there, rfl⟩
    case recordRefresh id refresh =>
      simp only [perform, recordRefresh]
      split
      · exact within
      · exact modified id fun _ => rfl
    case recordRun id last next =>
      simp only [perform, recordRun]
      split
      · exact within
      · exact modified id fun _ => rfl

namespace Pool

variable {p : Pool} {i : Nat} {w w' : Worker} {before after : List Worker}

/-- Each lock is held by one worker, the slots are free or held by workers, and all workers are
disciplined. -/
structure Orderly (setup : Setup) (dependsOn : RuleId → RuleId → Prop) (p : Pool) : Prop where
  locks : p.state.locks.Perm (p.workers.flatMap fun w => w.share.locks)
  distinct : p.state.locks.Nodup
  slots : p.state.slots + (p.workers.map fun w => w.share.slots).sum = setup.running.slots
  workers : ∀ w ∈ p.workers, w.Orderly dependsOn
  rows : p.state.catalog.DependsWithin dependsOn

namespace Orderly

/-- A worker goes on, and what it takes or gives back it takes from the state or gives to it. -/
theorem put (h : p.Orderly setup dependsOn) (split : p.workers = before ++ w :: after)
    (orderly : w'.Orderly dependsOn)
    (locks : ∀ others, p.state.locks.Perm (w.share.locks ++ others) →
      s'.locks.Perm (w'.share.locks ++ others))
    (distinct : s'.locks.Nodup)
    (slots : s'.slots + w'.share.slots = p.state.slots + w.share.slots)
    (rows : s'.catalog.DependsWithin dependsOn) :
    Orderly setup dependsOn ⟨s', before ++ w' :: after⟩ where
  locks := by
    have held := h.locks
    rw [split] at held
    -- In which order the workers stand does not matter.
    have first : ∀ w : Worker, ((before ++ w :: after).flatMap fun w => w.share.locks).Perm
        (w.share.locks ++ (before ++ after).flatMap fun w => w.share.locks) :=
      fun w => List.perm_middle.flatMap_right _
    exact (locks _ (held.trans (first w))).trans (first w').symm
  distinct := distinct
  slots := by
    have held := h.slots
    simp only [split, List.map_append, List.map_cons, List.sum_append, List.sum_cons] at held ⊢
    omega
  workers x hx := by
    have old := h.workers
    simp only [split, List.mem_append, List.mem_cons] at old hx
    rcases hx with hx | rfl | hx
    · exact old x (.inl hx)
    · exact orderly
    · exact old x (.inr (.inr hx))
  rows := rows

theorem turn (h : p.Orderly setup dependsOn) (i : Nat) :
    (p.turn i).Orderly setup dependsOn := by
  rcases p.turn_cases i with same | ⟨before, errand, r, next, share, after, split, goes_on, turned⟩
  · rwa [same]
  rw [turned]
  have member : (⟨errand, .ask r next, share⟩ : Worker) ∈ p.workers := by simp [split]
  obtain ⟨guarded, follows⟩ := h.workers _ member
  obtain ⟨admitted, rest⟩ := Program.follows_ask.mp follows
  -- What is read of a row is within the dependencies that the whole pool knows.
  have leads : (Protocol.locking dependsOn errand.slots).Leads share r (p.state.perform r).1
      (share.after r) := by
    cases r <;> first | rfl | exact ⟨rfl, h.rows _⟩
  refine h.put split ⟨guarded.after admitted, rest _ _ leads⟩ ?_ ?_
    (State.perform_slots admitted goes_on) (State.perform_dependsWithin h.rows admitted)
  · intro others held
    rw [State.perform_locks]
    exact Request.locksAfter_perm admitted held
  · rw [State.perform_locks]
    exact State.nodup_locksAfter goes_on h.distinct

/-- Where an errand can be cancelled it holds no lock, and what it holds it gives back. -/
theorem cancel (h : p.Orderly setup dependsOn) (i : Nat) :
    (p.cancel i).Orderly setup dependsOn := by
  rcases p.cancel_cases i
    with same | ⟨before, errand, r, next, share, after, split, canStop, isStop, cancelled⟩
  · rwa [same]
  rw [cancelled]
  have member : (⟨errand, .ask r next, share⟩ : Worker) ∈ p.workers := by simp [split]
  obtain ⟨guarded, follows⟩ := h.workers _ member
  have admitted := (Program.follows_ask.mp follows).1
  have one_slot : errand.slots = 1 := by
    cases errand <;> first | rfl | cases canStop
  -- By the discipline, it holds nothing where it waits for a slot, and a slot where it waits for a
  -- lock.
  have given_up : share.giveUp r = {} ∧ (r.giveUp p.state).locks = p.state.locks ∧
      share.locks = [] ∧ (r.giveUp p.state).slots = p.state.slots + share.slots ∧
      (r.giveUp p.state).catalog = p.state.catalog := by
    cases r <;> simp [Request.isStop] at isStop
    case takeSlot =>
      obtain rfl : share = {} := admitted
      exact ⟨rfl, rfl, rfl, rfl, rfl⟩
    case lock id =>
      obtain rfl : share = { slots := errand.slots } := admitted
      rw [one_slot]
      exact ⟨rfl, rfl, rfl, rfl, rfl⟩
    case join =>
      obtain rfl : share = {} := admitted
      exact ⟨rfl, rfl, rfl, rfl, rfl⟩
  obtain ⟨nothing, same_locks, no_locks, slots, same_rows⟩ := given_up
  rw [nothing]
  refine h.put split ⟨⟨List.nodup_nil, by simp⟩, (Program.follows_pure ()).mpr rfl⟩ ?_ ?_ slots ?_
  · intro others held
    rw [same_locks]
    simpa [no_locks] using held
  · rw [same_locks]
    exact h.distinct
  · rw [same_rows]
    exact h.rows

theorem add (h : p.Orderly setup dependsOn) (errand : Errand) :
    (p.add setup errand).Orderly setup dependsOn where
  locks := by simpa [Pool.add] using h.locks
  distinct := h.distinct
  slots := by simpa [Pool.add] using h.slots
  workers w hw := by
    rcases List.mem_append.mp hw with hw | hw
    · exact h.workers w hw
    · obtain rfl := List.mem_singleton.mp hw
      exact ⟨⟨List.nodup_nil, by simp⟩, errand.program_follows setup⟩
  rows := h.rows

theorem of_meanwhile (h : p.Orderly setup dependsOn) (locks : s'.locks = p.state.locks)
    (slots : s'.slots = p.state.slots) (rows : s'.catalog.DependsWithin dependsOn) :
    Orderly setup dependsOn { p with state := s' } where
  locks := locks ▸ h.locks
  distinct := locks ▸ h.distinct
  slots := slots ▸ h.slots
  workers := h.workers
  rows := rows

end Orderly

/-- Locks and slots change only by requests. -/
theorem Reachable.orderly (reachable : Reachable setup meanwhile s₀ p) (unlocked : s₀.locks = [])
    (free : s₀.slots = setup.running.slots) (within : s₀.catalog.DependsWithin dependsOn)
    (kept : ∀ s s', meanwhile s s' → s'.locks = s.locks ∧ s'.slots = s.slots ∧
      (s.catalog.DependsWithin dependsOn → s'.catalog.DependsWithin dependsOn)) :
    p.Orderly setup dependsOn := by
  induction reachable with
  | start =>
    exact ⟨by simp [unlocked], by simp [unlocked], by simpa using free, by simp, within⟩
  | add _ errand ih => exact ih.add errand
  | turn _ i ih => exact ih.turn i
  | cancel _ i ih => exact ih.cancel i
  | meanwhile _ change ih =>
    obtain ⟨locks, slots, rows⟩ := kept _ _ change
    exact ih.of_meanwhile locks slots (rows ih.rows)

namespace Orderly

/-- Runs that are underway are under different locks, so they are those of different rules. -/
theorem nodup_underway (h : p.Orderly setup dependsOn) :
    (p.workers.flatMap fun w => w.share.underway).Nodup := by
  have locks : (p.workers.flatMap fun w => w.share.locks).Nodup := h.locks.nodup_iff.mp h.distinct
  rw [List.nodup_flatMap] at locks ⊢
  refine ⟨fun w hw => (h.workers w hw).guarded.distinct, ?_⟩
  -- A run that is underway is under the lock of its rule, and locks of different workers differ.
  have both := locks.2.and (List.pairwise_of_forall_mem_list
    (r := fun w w' => w.share.Guarded ∧ w'.share.Guarded)
    fun w hw w' hw' => ⟨(h.workers w hw).guarded, (h.workers w' hw').guarded⟩)
  refine both.imp fun {w w'} apart id hid hid' => ?_
  exact apart.1 (apart.2.1.locked id hid) (apart.2.2.locked id hid')

/-- Every run in progress has a slot. -/
theorem countP_isRunning_le (h : p.Orderly setup dependsOn) :
    p.workers.countP (fun w => decide w.IsRunning) ≤ setup.running.slots := by
  have bound : ∀ workers : List Worker, workers.countP (fun w => decide w.IsRunning) ≤
      (workers.map fun w => w.share.slots).sum := by
    intro workers
    induction workers with
    | nil => exact Nat.le_refl 0
    | cons w rest ih =>
      rw [List.countP_cons, List.map_cons, List.sum_cons]
      by_cases running : w.IsRunning
      · have slot : 0 < w.share.slots := running.1
        simp only [running, decide_true, if_true]
        omega
      · simp only [running, decide_false, Bool.false_eq_true, if_false]
        omega
  have total := h.slots
  have counted := bound p.workers
  omega

end Orderly

end Pool

/-- Nobody else touches the locks and the slots. Everything else can change. -/
def State.SameHoldings (s s' : State) : Prop := s'.locks = s.locks ∧ s'.slots = s.slots

theorem Pool.Reachable.orderly_of_sameHoldings {p : Pool}
    (reachable : p.Reachable setup State.SameHoldings s₀) (unlocked : s₀.locks = [])
    (free : s₀.slots = setup.running.slots) : p.Orderly setup fun _ _ => True :=
  reachable.orderly unlocked free (fun _ _ _ _ _ => trivial)
    fun _ _ same => ⟨same.1, same.2, fun _ _ _ _ _ _ => trivial⟩

private def circularRow (id other : Nat) : Entry where
  rule :=
    { id := .ofNat id, name := toString id, description := none, conditions := [], declared := [],
      dependencies := some [.ofNat other], operation := some .union, active := true,
      schedule := .daily, nextRunAt := none, lastRunAt := none, createdAt := ⟨0, 0⟩,
      updatedAt := ⟨0, 0⟩ }
  segment :=
    { ruleId := .ofNat id, name := toString id, table := toString id,
      source := .composite [.ofNat other] .union none, rowCount := 0, lastRefreshedAt := none,
      dataAsOf := none, createdAt := ⟨0, 0⟩ }
  version := 1

private def circularRules : State :=
  { clock := .still ⟨0, 0⟩
    slots := 2
    catalog :=
      { rows := [(.ofNat 1, circularRow 1 2), (.ofNat 2, circularRow 2 1)] } }

private def twoSlots : Setup := { running := { maxConcurrentRuns := 2 } }

/-- A run of the first rule, which computes the second one first; a run of the second rule, which
has a slot; and a pass, which has none and is cancelled. -/
private def circularPool : Pool :=
  let p := (Pool.mk circularRules []).add twoSlots (.run (.ofNat 1) none)
  let p := (p.add twoSlots (.run (.ofNat 2) none)).add twoSlots .pass
  (p.turns (List.replicate 10 0 ++ [1, 1, 2, 2, 2])).cancel 2

end Cohort
