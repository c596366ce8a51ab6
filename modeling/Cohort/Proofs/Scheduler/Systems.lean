import Cohort.Proofs.Manager.Staleness
import Cohort.Proofs.Scheduler.Deadlock
import Cohort.System

/-!
# Systems as pools

A system with its tasks and an operation in the foreground is a pool of errands. Each task is one
of them, and so is the operation if it takes locks or slots. Where a task goes on as far as it can,
its errand takes some turns, and where it is given up its errand is cancelled. So what holds of all
pools holds of all systems.

## Main definitions

* `Task.Suits`, `System.Within` — a task is an errand, and the tasks of a system are those of a pool
* `System.ComesFrom` — a system whose tasks are errands of a pool that comes from another one
* `System.Pooled` — a system that is a pool that comes about
* `System.Arises` — the systems that come about

## Main results

* `Task.advanceProgram_within` — a task that goes on is an errand that takes turns
* `System.Within.run_errand` — an operation in the foreground is an errand too
* `System.Arises.pooled` — every system that comes about is one of a pool that comes about
* `System.Arises.holdings` — no lock of a system is taken twice
* `System.Arises.goes_on` — over a catalogue without cycles, a system goes on while it has tasks
-/

namespace Cohort

variable {setup : Setup} {meanwhile : State → State → Prop} {s₀ s' : State} {p p' p'' : Pool}
  {w : Worker} {i k : Nat} {y y₀ y' : System} {places places' places'' : List (Task × Nat)}
  {f : Foreground} {errand : Errand} {share : Share}

/-! ## Tasks and errands -/

/-- A task that is in a query is about to end one. -/
def Task.Coherent (t : Task) : Prop :=
  t.queryEnd.isSome → ∃ q next, t.rest = .ask (.endQuery q) next

/-- What is left of a task is what is left of an errand, which can be cancelled. -/
structure Task.Suits (t : Task) (w : Worker) : Prop where
  rest : w.rest = t.rest
  canStop : w.errand.canStop = true
  coherent : t.Coherent

/-- The tasks of a system are errands of a pool, each at its own place, and the state is the
same. -/
structure System.Within (y : System) (p : Pool) (places : List (Task × Nat)) : Prop where
  state : p.state = y.state
  tasks : places.map Prod.fst = y.tasks
  distinct : (places.map Prod.snd).Nodup
  suits : ∀ x ∈ places, ∃ w, p.workers[x.2]? = some w ∧ x.1.Suits w

/-- Errands at other places are as they were, and those that have come since then are done. -/
structure Pool.Spares (p : Pool) (places : List (Task × Nat)) (p' : Pool)
    (places' : List (Task × Nat)) : Prop where
  kept : ∀ k w, p.workers[k]? = some w → k ∉ places.map Prod.snd →
    p'.workers[k]? = some w ∧ k ∉ places'.map Prod.snd
  ended : ∀ k w, p'.workers[k]? = some w → k ∉ places'.map Prod.snd →
    w.next? = none ∨ p.workers[k]? = some w ∧ k ∉ places.map Prod.snd

theorem Pool.Spares.of_workers (same : p'.workers = p.workers) : p.Spares places p' places where
  kept _ _ found apart := ⟨same ▸ found, apart⟩
  ended _ _ found apart := .inr ⟨same ▸ found, apart⟩

theorem Pool.Spares.trans (h : p.Spares places p' places') (h' : p'.Spares places' p'' places'') :
    p.Spares places p'' places'' where
  kept k w found apart := by
    obtain ⟨found', apart'⟩ := h.kept k w found apart
    exact h'.kept k w found' apart'
  ended k w found apart := by
    rcases h'.ended k w found apart with done | ⟨found', apart'⟩
    · exact .inl done
    · exact h.ended k w found' apart'

/-- The tasks of the system are errands of a pool that comes about, after the pool that is given
with the places of tasks in it. -/
def System.ComesFrom (setup : Setup) (meanwhile : State → State → Prop) (s₀ : State) (p : Pool)
    (places : List (Task × Nat)) (y' : System) : Prop :=
  ∃ p' places', p'.Reachable setup meanwhile s₀ ∧ y'.Within p' places' ∧
    p.Spares places p' places'

theorem System.Within.comesFrom (within : y.Within p places)
    (reachable : p.Reachable setup meanwhile s₀) : y.ComesFrom setup meanwhile s₀ p places :=
  ⟨p, places, reachable, within, .of_workers rfl⟩

theorem System.ComesFrom.trans (h : y.ComesFrom setup meanwhile s₀ p places)
    (next : ∀ p' places', p'.Reachable setup meanwhile s₀ → y.Within p' places' →
      y'.ComesFrom setup meanwhile s₀ p' places') : y'.ComesFrom setup meanwhile s₀ p places := by
  obtain ⟨p', places', reachable, within, spares⟩ := h
  obtain ⟨p'', places'', reachable', within', spares'⟩ := next p' places' reachable within
  exact ⟨p'', places'', reachable', within', spares.trans spares'⟩

/-- How much time has passed does not matter. -/
theorem System.ComesFrom.elapsed (h : y.ComesFrom setup meanwhile s₀ p places) (elapsed : Nat) :
    System.ComesFrom setup meanwhile s₀ p places { y with elapsed } := by
  obtain ⟨p', places', reachable, within, spares⟩ := h
  exact ⟨p', places', reachable, ⟨within.state, within.tasks, within.distinct, within.suits⟩,
    spares⟩

/-! ## Turns of a task -/

/-- What is left of a task is what is left of an errand. If nothing is left of it, then the errand
is done. -/
def Worker.Continues (w : Worker) : Option Task → Prop
  | some t => t.Suits w
  | none => w.next? = none

/-- An errand at a place takes turns and may be cancelled. -/
def Pool.Moves (setup : Setup) (meanwhile : State → State → Prop) (s₀ : State) (p : Pool) (i : Nat)
    (rest : Option Task) (s' : State) : Prop :=
  ∃ (p' : Pool) (w' : Worker), p'.Reachable setup meanwhile s₀ ∧ p'.state = s' ∧
    p'.workers = p.workers.set i w' ∧ w'.Continues rest

/-- The errand stays where it is. -/
theorem Pool.moves_of_suits {t : Task} (reachable : p.Reachable setup meanwhile s₀)
    (found : p.workers[i]? = some w) (suits : t.Suits w) :
    p.Moves setup meanwhile s₀ i (some t) p.state := by
  obtain ⟨listed, rfl⟩ := List.getElem?_eq_some_iff.mp found
  exact ⟨p, _, reachable, rfl, (List.set_getElem_self listed).symm, suits⟩

/-- A task that goes on as far as it can is an errand that takes some turns, and then may be
cancelled. -/
theorem Task.advanceProgram_within (f : Foreground) (elapsed : Nat) (key : TaskKey)
    {program : Program Unit} (canStop : errand.canStop = true) (queryEnd : Option Nat)
    (reachable : p.Reachable setup meanwhile s₀)
    (found : p.workers[i]? = some ⟨errand, program, share⟩) :
    p.Moves setup meanwhile s₀ i (advanceProgram f elapsed key program queryEnd p.state).1
      (advanceProgram f elapsed key program queryEnd p.state).2 := by
  induction program generalizing p share queryEnd with
  | done result =>
    obtain ⟨listed, own⟩ := List.getElem?_eq_some_iff.mp found
    refine ⟨p, ⟨errand, .done result, share⟩, reachable, rfl, ?_, rfl⟩
    rw [← own, List.set_getElem_self]
  | ask r next ih =>
    have stays : p.Moves setup meanwhile s₀ i (some ⟨key, .ask r next, none⟩) p.state :=
      Pool.moves_of_suits reachable found ⟨rfl, canStop, nofun⟩
    unfold advanceProgram
    by_cases busy : (r.isStop && f = .busy) = true
    · rwa [if_pos busy]
    rw [if_neg busy]
    by_cases given_up : (r.isStop && !key.isAlive p.state.board) = true
    · rw [if_pos given_up]
      have cancelled := Pool.cancel_eq found canStop (Bool.and_eq_true_iff.mp given_up).1
      exact ⟨p.cancel i, ⟨errand, .done (), share.giveUp r⟩, reachable.cancel i,
        by rw [cancelled], by rw [cancelled], rfl⟩
    rw [if_neg given_up]
    by_cases waits : p.state.blocks r = true
    · rwa [if_pos waits]
    rw [if_neg waits]
    by_cases in_query : (r.endsQuery p.state && queryEnd.isNone) = true
    · rw [if_pos in_query]
      refine Pool.moves_of_suits reachable found ⟨rfl, canStop, fun _ => ?_⟩
      have ends := (Bool.and_eq_true_iff.mp in_query).1
      cases r <;> simp [Request.endsQuery] at ends
      exact ⟨_, _, rfl⟩
    rw [if_neg in_query]
    -- The errand takes a turn and goes on.
    have turned := Pool.turn_eq found (Bool.eq_false_iff.mpr waits)
    have found' : (p.turn i).workers[i]? =
        some ⟨errand, next (p.state.perform r).1, share.after r⟩ := by
      rw [turned, List.getElem?_set_self (List.getElem?_eq_some_iff.mp found).1]
    have performed : (p.turn i).state = (p.state.perform r).2 := by rw [turned]
    obtain ⟨p', w', reachable', state, workers, continues⟩ :=
      ih (p.state.perform r).1 none (reachable.turn i) found'
    rw [performed] at state continues
    refine ⟨p', w', reachable', state, ?_, continues⟩
    rw [workers, turned, List.set_set]

theorem Task.advance_within {t : Task} (f : Foreground) (elapsed : Nat)
    (reachable : p.Reachable setup meanwhile s₀) (found : p.workers[i]? = some w)
    (suits : t.Suits w) :
    p.Moves setup meanwhile s₀ i (t.advance f elapsed p.state).1
      (t.advance f elapsed p.state).2 := by
  unfold advance
  split
  · exact Pool.moves_of_suits reachable found suits
  · obtain ⟨errand, rest, share⟩ := w
    obtain rfl : rest = t.rest := suits.rest
    exact advanceProgram_within f elapsed t.key suits.canStop t.queryEnd reachable found

/-! ## Steps of a system -/

theorem System.step?_cases (stepped : y.step? f = some y') : ∃ before t after,
    y.tasks = before ++ t :: after ∧
    y' = { y with
      state := (t.advance f y.elapsed y.state).2
      tasks := before ++ (t.advance f y.elapsed y.state).1.toList ++ after } := by
  unfold step? at stepped
  split at stepped
  · cases stepped
  next i _ =>
  split at stepped
  · cases stepped
  next t found =>
  obtain ⟨listed, rfl⟩ := List.getElem?_eq_some_iff.mp found
  refine ⟨y.tasks.take i, y.tasks[i], y.tasks.drop (i + 1), ?_, (Option.some.inj stepped).symm⟩
  rw [← List.drop_eq_getElem_cons listed, List.take_append_drop]

/-- One task goes on, and the others stay where they are. -/
theorem System.Within.move {t : Task} {before after : List (Task × Nat)} {rest : Option Task}
    (within : y.Within p (before ++ (t, k) :: after))
    (moved : p.Moves setup meanwhile s₀ k rest s') :
    System.ComesFrom setup meanwhile s₀ p (before ++ (t, k) :: after)
      { y with
        state := s'
        tasks := before.map Prod.fst ++ rest.toList ++ after.map Prod.fst } := by
  obtain ⟨p', w', reachable', rfl, workers, continues⟩ := moved
  obtain ⟨w, found, -⟩ := within.suits (t, k) (by simp)
  have own : p'.workers[k]? = some w' := by
    rw [workers, List.getElem?_set_self (List.getElem?_eq_some_iff.mp found).1]
  have elsewhere : ∀ j, j ≠ k → p'.workers[j]? = p.workers[j]? := by
    intro j apart
    rw [workers, List.getElem?_set_ne apart.symm]
  have distinct := within.distinct
  rw [List.map_append, List.map_cons, List.nodup_middle, ← List.map_append] at distinct
  have fewer : ((before ++ (rest.map (·, k)).toList ++ after).map Prod.snd).Sublist
      ((before ++ (t, k) :: after).map Prod.snd) := by
    cases rest <;> simp
  refine ⟨p', before ++ (rest.map (·, k)).toList ++ after, reachable', ?within, ?spares⟩
  case within =>
    refine ⟨rfl, by cases rest <;> simp, within.distinct.sublist fewer, fun x hx => ?_⟩
    have place : x ∈ before ++ after ∨ x ∈ rest.map (·, k) := by
      simp only [List.mem_append, Option.mem_toList] at hx ⊢
      tauto
    rcases place with other | same
    -- Another task is at another place, where nothing has changed.
    · obtain ⟨w, found, suits⟩ := within.suits x (by simp at other ⊢; tauto)
      have apart : x.2 ≠ k := by
        rintro rfl
        exact (List.nodup_cons.mp distinct).1 (List.mem_map.mpr ⟨x, other, rfl⟩)
      exact ⟨w, (elsewhere _ apart).trans found, suits⟩
    · obtain ⟨t', left, rfl⟩ := Option.mem_map.mp same
      obtain rfl := Option.mem_def.mp left
      exact ⟨w', own, continues⟩
  case spares =>
    refine ⟨fun j w found apart => ?_, fun j w here apart => ?_⟩
    · have other : j ≠ k := by
        rintro rfl
        simp at apart
      exact ⟨(elsewhere j other).trans found, fun here => apart (fewer.subset here)⟩
    · by_cases same : j = k
      -- The errand is at no place of a task any more, so that nothing is left of it.
      · subst same
        obtain rfl : w' = w := Option.some.inj (own.symm.trans here)
        cases rest with
        | none => exact .inl continues
        | some t' => simp at apart
      · refine .inr ⟨(elsewhere j same).symm.trans here, ?_⟩
        simp only [List.map_append, List.map_cons, List.mem_append, List.mem_cons, not_or]
          at apart ⊢
        exact ⟨apart.1.1, same, apart.2⟩

theorem System.Within.step (within : y.Within p places)
    (reachable : p.Reachable setup meanwhile s₀) (stepped : y.step? f = some y') :
    y'.ComesFrom setup meanwhile s₀ p places := by
  obtain ⟨before, t, after, split, rfl⟩ := step?_cases stepped
  obtain ⟨l, x, rfl, rfl, there⟩ := List.map_eq_append_iff.mp (within.tasks.trans split)
  obtain ⟨⟨t, k⟩, r, rfl, rfl, rfl⟩ := List.map_eq_cons_iff.mp there
  obtain ⟨w, found, suits⟩ := within.suits (t, k) (by simp)
  have moved := Task.advance_within f y.elapsed reachable found suits
  rw [within.state] at moved
  exact within.move moved

/-- Something else happens meanwhile. -/
theorem System.Within.of_meanwhile (within : y.Within p places)
    (reachable : p.Reachable setup meanwhile s₀) (change : meanwhile y.state s') :
    System.ComesFrom setup meanwhile s₀ p places { y with state := s' } :=
  ⟨{ p with state := s' }, places, .meanwhile reachable (within.state ▸ change),
    ⟨rfl, within.tasks, within.distinct, within.suits⟩, .of_workers rfl⟩

/-- Who sets out takes no other place. -/
theorem System.Within.length_notMem (within : y.Within p places) :
    p.workers.length ∉ places.map Prod.snd := by
  intro taken
  obtain ⟨x, hx, same⟩ := List.mem_map.mp taken
  obtain ⟨w, found, -⟩ := within.suits x hx
  have listed := (List.getElem?_eq_some_iff.mp found).1
  omega

/-- A task sets out. -/
theorem System.Within.begin (within : y.Within p places)
    (reachable : p.Reachable setup meanwhile s₀) {t : Task}
    (suits : t.Suits ⟨errand, errand.program setup, {}⟩) :
    System.ComesFrom setup meanwhile s₀ p places { y with tasks := y.tasks ++ [t] } := by
  have own : (p.add setup errand).workers[p.workers.length]? =
      some ⟨errand, errand.program setup, {}⟩ := by
    simp [Pool.add]
  refine ⟨p.add setup errand, places.concat (t, p.workers.length), reachable.add errand,
    ⟨within.state, by simp [within.tasks], ?_, ?_⟩, ⟨?_, ?_⟩⟩
  · rw [List.map_concat, List.nodup_concat]
    exact ⟨within.length_notMem, within.distinct⟩
  · intro x hx
    rw [List.concat_eq_append, List.mem_append, List.mem_singleton] at hx
    rcases hx with hx | rfl
    · obtain ⟨w, found, suits⟩ := within.suits x hx
      exact ⟨w, Pool.add_getElem? found, suits⟩
    · exact ⟨_, own, suits⟩
  · intro j w found apart
    refine ⟨Pool.add_getElem? found, ?_⟩
    have other : j ≠ p.workers.length := by
      have listed := (List.getElem?_eq_some_iff.mp found).1
      omega
    simpa [other] using apart
  · intro j w found apart
    simp only [List.concat_eq_append, List.map_append, List.mem_append, not_or] at apart
    have other : j ≠ p.workers.length := by simpa using apart.2
    exact .inr ⟨Pool.getElem?_of_add found other, apart.1⟩

theorem System.Within.beginAll (within : y.Within p places)
    (reachable : p.Reachable setup meanwhile s₀) {tasks : List Task}
    (suits : ∀ t ∈ tasks, ∃ errand : Errand, t.Suits ⟨errand, errand.program setup, {}⟩) :
    System.ComesFrom setup meanwhile s₀ p places { y with tasks := y.tasks ++ tasks } := by
  induction tasks generalizing y p places with
  | nil =>
    rw [List.append_nil]
    exact within.comesFrom reachable
  | cons t rest ih =>
    obtain ⟨errand, first⟩ := suits t (by simp)
    refine (within.begin reachable first).trans fun p' places' reachable' within' => ?_
    rw [List.append_cons]
    exact ih within' reachable' fun t ht => suits t (List.mem_cons_of_mem _ ht)

theorem System.gather_cases (setup : Setup) (y : System) :
    ∃ (board : JobBoard) (clock : Clock) (runs : List ManualRun)
      (jobs : List (RuleId × Job × Instant)),
      y.gather setup = { y with
        state := { y.state with board, clock }
        tasks :=
          y.tasks ++ runs.map (fun run => ⟨.manual run.sequence, manualRun setup run, none⟩) ++
            jobs.map fun (id, job, time) =>
              ⟨.recurring id job.generation, recurringRun setup id job.generation time, none⟩ } :=
  ⟨_, _, _, _, rfl⟩

/-- The board and the clock can change meanwhile. -/
def AllowsGathering (meanwhile : State → State → Prop) : Prop :=
  ∀ s board clock, meanwhile s { s with board, clock }

/-- What is gathered sets out. -/
theorem System.Within.gather (within : y.Within p places)
    (reachable : p.Reachable setup meanwhile s₀) (allowed : AllowsGathering meanwhile) :
    (y.gather setup).ComesFrom setup meanwhile s₀ p places := by
  obtain ⟨board, clock, runs, jobs, gathered⟩ := y.gather_cases setup
  rw [gathered]
  have changed := within.of_meanwhile reachable (allowed y.state board clock)
  refine (changed.trans fun _ _ reachable' within' => within'.beginAll reachable' ?_).trans
    fun _ _ reachable' within' => within'.beginAll reachable' ?_
  · intro t ht
    obtain ⟨asked, -, rfl⟩ := List.mem_map.mp ht
    exact ⟨.manual asked, rfl, rfl, nofun⟩
  · intro t ht
    obtain ⟨⟨id, job, time⟩, -, rfl⟩ := List.mem_map.mp ht
    exact ⟨.firing id job.generation time, rfl, rfl, nofun⟩

theorem System.passTime?_cases {limit : Option Nat} (passed : y.passTime? limit = some y') :
    ∃ elapsed, y' = { y with elapsed } := by
  unfold passTime? at passed
  split at passed
  · cases passed
  · split at passed
    · exact ⟨_, (Option.some.inj passed).symm⟩
    · cases passed

/-- However far the tasks go on, they are errands. -/
theorem System.Within.progress (within : y.Within p places)
    (reachable : p.Reachable setup meanwhile s₀) (allowed : AllowsGathering meanwhile)
    (f : Foreground) (limit : Option Nat) (enough : System → Bool) (n : Nat) :
    (y.progress setup f limit enough n).ComesFrom setup meanwhile s₀ p places := by
  induction n generalizing y p places with
  | zero => exact within.comesFrom reachable
  | succ n ih =>
    unfold System.progress
    split
    · exact within.comesFrom reachable
    -- What is due is taken up first.
    have gathered : (if f = .waiting then y.gather setup else y).ComesFrom setup meanwhile s₀ p
        places := by
      split
      · exact within.gather reachable allowed
      · exact within.comesFrom reachable
    generalize (if f = .waiting then y.gather setup else y) = y₁ at gathered ⊢
    refine gathered.trans fun p₁ places₁ reachable₁ within₁ => ?_
    dsimp only
    cases stepped : y₁.step? f with
    | some next =>
      exact (within₁.step reachable₁ stepped).trans fun _ _ reachable' within' =>
        ih within' reachable'
    | none =>
      cases passed : y₁.passTime? limit with
      | some next =>
        obtain ⟨elapsed, rfl⟩ := passTime?_cases passed
        exact ((within₁.comesFrom reachable₁).elapsed elapsed).trans
          fun _ _ reachable' within' => ih within' reachable'
      | none => exact within₁.comesFrom reachable₁

theorem System.Within.letPass (within : y.Within p places)
    (reachable : p.Reachable setup meanwhile s₀) (allowed : AllowsGathering meanwhile)
    (f : Foreground) (milliseconds : Nat) :
    (y.letPass setup f milliseconds).ComesFrom setup meanwhile s₀ p places :=
  (within.progress reachable allowed ..).elapsed _

theorem System.Within.comeTo (within : y.Within p places)
    (reachable : p.Reachable setup meanwhile s₀) (allowed : AllowsGathering meanwhile)
    (f : Foreground) (r : Request) :
    (y.comeTo setup f r).ComesFrom setup meanwhile s₀ p places := by
  unfold System.comeTo
  split
  · exact within.progress reachable allowed ..
  · split
    · exact within.letPass reachable allowed ..
    · exact within.comesFrom reachable

/-! ## The foreground -/

/-- What happens at another place does not matter to the tasks. -/
theorem System.Within.set (within : y.Within p places) (apart : k ∉ places.map Prod.snd)
    (s' : State) (w' : Worker) :
    System.Within { y with state := s' } ⟨s', p.workers.set k w'⟩ places where
  state := rfl
  tasks := within.tasks
  distinct := within.distinct
  suits x hx := by
    obtain ⟨w, found, suits⟩ := within.suits x hx
    have other : k ≠ x.2 := by
      rintro rfl
      exact apart (List.mem_map_of_mem hx)
    exact ⟨w, (List.getElem?_set_ne other).trans found, suits⟩

/-- An operation in the foreground that is one of the errands takes turns as the tasks do. If it
comes to its end, it is done. -/
theorem System.Within.run_errand {α : Type} {q : Program α} (within : y.Within p places)
    (reachable : p.Reachable setup meanwhile s₀) (allowed : AllowsGathering meanwhile)
    (f : Foreground) (found : p.workers[k]? = some ⟨errand, q >>= fun _ => pure (), share⟩)
    (apart : k ∉ places.map Prod.snd) :
    ∃ p' places', p'.Reachable setup meanwhile s₀ ∧ (y.run setup f q).2.Within p' places' ∧
      ((y.run setup f q).1.isSome → ∀ j w, p'.workers[j]? = some w → j ∉ places'.map Prod.snd →
        w.next? = none ∨ j ≠ k ∧ p.workers[j]? = some w ∧ j ∉ places.map Prod.snd) := by
  induction q generalizing y p places share with
  | done a =>
    refine ⟨p, places, reachable, within, fun _ j w here elsewhere => ?_⟩
    by_cases same : j = k
    · subst same
      obtain rfl := Option.some.inj (found.symm.trans here)
      exact .inl rfl
    · exact .inr ⟨same, here, elsewhere⟩
  | ask r next ih =>
    obtain ⟨p₁, places₁, reachable₁, within₁, spares⟩ := within.comeTo reachable allowed f r
    obtain ⟨found₁, apart₁⟩ := spares.kept k _ found apart
    unfold System.run
    dsimp only
    split
    · exact ⟨p₁, places₁, reachable₁, within₁, nofun⟩
    next goes_on =>
    have goes_on' : p₁.state.blocks r = false := by
      rw [within₁.state]
      exact Bool.eq_false_iff.mpr goes_on
    -- The request is a turn of the errand, after which the rest goes on in the same way.
    have turned := Pool.turn_eq found₁ goes_on'
    have listed := (List.getElem?_eq_some_iff.mp found₁).1
    have within₂ := within₁.set apart₁ (p₁.state.perform r).2
      ⟨errand, next (p₁.state.perform r).1 >>= fun _ => pure (), share.after r⟩
    rw [within₁.state] at turned within₂
    obtain ⟨p', places', reachable', within', ended⟩ := ih _ within₂ (turned ▸ reachable₁.turn k)
      (List.getElem?_set_self listed) apart₁
    refine ⟨p', places', reachable', within', fun result j w here elsewhere => ?_⟩
    rcases ended result j w here elsewhere with done | ⟨other, same, elsewhere₁⟩
    · exact .inl done
    · rw [List.getElem?_set_ne other.symm] at same
      exact (spares.ended j w same elsewhere₁).imp_right fun before => ⟨other, before⟩

/-- The tasks are errands of a pool that comes about, and all its other errands are done. -/
def System.Pooled (setup : Setup) (meanwhile : State → State → Prop) (s₀ : State) (y : System) :
    Prop :=
  ∃ p places, p.Reachable setup meanwhile s₀ ∧ y.Within p places ∧
    ∀ k w, p.workers[k]? = some w → k ∉ places.map Prod.snd → w.next? = none

namespace System.Pooled

theorem of_comesFrom (h : y.Pooled setup meanwhile s₀)
    (next : ∀ p places, p.Reachable setup meanwhile s₀ → y.Within p places →
      y'.ComesFrom setup meanwhile s₀ p places) : y'.Pooled setup meanwhile s₀ := by
  obtain ⟨p, places, reachable, within, ended⟩ := h
  obtain ⟨p', places', reachable', within', spares⟩ := next p places reachable within
  refine ⟨p', places', reachable', within', fun k w found apart => ?_⟩
  rcases spares.ended k w found apart with done | ⟨before, apart⟩
  · exact done
  · exact ended k w before apart

/-- An operation in the foreground whose requests are all among what can happen meanwhile. -/
theorem run (h : y.Pooled setup meanwhile s₀) (allowed : AllowsGathering meanwhile) (f : Foreground)
    {α : Type} {q : Program α} (asks : q.Asks fun r => ∀ s, meanwhile s (s.perform r).2) :
    (y.run setup f q).2.Pooled setup meanwhile s₀ := by
  induction q generalizing y with
  | done a => exact h
  | ask r next ih =>
    obtain ⟨permitted, rest⟩ := Program.asks_ask.mp asks
    have come := h.of_comesFrom fun _ _ reachable within => within.comeTo reachable allowed f r
    unfold System.run
    dsimp only
    split
    · exact come
    · exact ih _ (come.of_comesFrom fun _ _ reachable within =>
        within.of_meanwhile reachable (permitted _)) (rest _)

/-- An operation in the foreground that is an errand, and that comes to its end. -/
theorem run_errand (h : y.Pooled setup meanwhile s₀) (allowed : AllowsGathering meanwhile)
    (f : Foreground) {α : Type} {q : Program α}
    (whole : errand.program setup = q >>= fun _ => pure ())
    (ended : (y.run setup f q).1.isSome) : (y.run setup f q).2.Pooled setup meanwhile s₀ := by
  obtain ⟨p, places, reachable, within, done⟩ := h
  have own : (p.add setup errand).workers[p.workers.length]? =
      some ⟨errand, q >>= fun _ => pure (), {}⟩ := by
    simp [Pool.add, whole]
  have within' : y.Within (p.add setup errand) places :=
    ⟨within.state, within.tasks, within.distinct, fun x hx => by
      obtain ⟨w, found, suits⟩ := within.suits x hx
      exact ⟨w, Pool.add_getElem? found, suits⟩⟩
  obtain ⟨p', places', reachable', within', rest⟩ :=
    within'.run_errand (reachable.add errand) allowed f own within.length_notMem
  refine ⟨p', places', reachable', within', fun k w found apart => ?_⟩
  rcases rest ended k w found apart with done' | ⟨other, before, elsewhere⟩
  · exact done'
  · exact done k w (Pool.getElem?_of_add before other) elsewhere

end System.Pooled

/-- The systems that come about. In the foreground are errands that come to their end, and
operations with requests that can also be made meanwhile. -/
inductive System.Arises (setup : Setup) (meanwhile : State → State → Prop) (y₀ : System) :
    System → Prop
  | start : Arises setup meanwhile y₀ y₀
  | change {y : System} {s' : State} (before : Arises setup meanwhile y₀ y)
      (change : meanwhile y.state s') : Arises setup meanwhile y₀ { y with state := s' }
  | settle {y : System} (before : Arises setup meanwhile y₀ y) :
      Arises setup meanwhile y₀ (y.settle setup)
  | wait {y : System} (before : Arises setup meanwhile y₀ y) (milliseconds : Nat) :
      Arises setup meanwhile y₀ (y.wait setup milliseconds)
  | run {y : System} {α : Type} {q : Program α} (before : Arises setup meanwhile y₀ y)
      (f : Foreground) (asks : q.Asks fun r => ∀ s, meanwhile s (s.perform r).2) :
      Arises setup meanwhile y₀ (y.run setup f q).2
  | errand {y : System} {α : Type} {q : Program α} (before : Arises setup meanwhile y₀ y)
      (f : Foreground) (errand : Errand) (whole : errand.program setup = q >>= fun _ => pure ())
      (ended : (y.run setup f q).1.isSome) : Arises setup meanwhile y₀ (y.run setup f q).2

theorem System.Arises.pooled (arises : System.Arises setup meanwhile y₀ y)
    (allowed : AllowsGathering meanwhile) (idle : y₀.tasks = []) :
    y.Pooled setup meanwhile y₀.state := by
  induction arises with
  | start => exact ⟨⟨y₀.state, []⟩, [], .start, ⟨rfl, idle.symm, List.nodup_nil, by simp⟩, by simp⟩
  | change _ change ih =>
    exact ih.of_comesFrom fun _ _ reachable within => within.of_meanwhile reachable change
  | settle _ ih =>
    exact ih.of_comesFrom fun _ _ reachable within => within.progress reachable allowed ..
  | wait _ milliseconds ih =>
    exact ih.of_comesFrom fun _ _ reachable within => within.letPass reachable allowed ..
  | run _ f asks ih => exact ih.run allowed f asks
  | errand _ f _ whole ended ih => exact ih.run_errand allowed f whole ended

/-! ## What holds of systems -/

/-- A change of a rule takes no lock and no slot. -/
theorem State.sameHoldings_perform {r : Request} (change : r.ofChange = true) (s : State) :
    s.SameHoldings (s.perform r).2 := by
  by_cases rows : r.ofRows = true
  · obtain ⟨catalog, faults, same⟩ := s.perform_ofRows rows
    rw [same]
    exact ⟨rfl, rfl⟩
  · cases r <;> simp [Request.ofRows, Request.ofChange] at rows change <;> exact ⟨rfl, rfl⟩

/-- Rules can be created in the foreground. -/
theorem System.Arises.create (arises : System.Arises setup State.SameHoldings y₀ y) (f : Foreground)
    (d : RuleDraft) :
    System.Arises setup State.SameHoldings y₀ (y.run setup f (createRule setup d).outcome).2 :=
  arises.run f ((createRule_asks setup d).outcome.mono fun _ => State.sameHoldings_perform)

/-- Rules can be changed in the foreground. -/
theorem System.Arises.update (arises : System.Arises setup State.SameHoldings y₀ y) (f : Foreground)
    (id : RuleId) (patch : RulePatch) :
    System.Arises setup State.SameHoldings y₀
      (y.run setup f (updateRule setup id patch).outcome).2 :=
  arises.run f ((updateRule_asks setup id patch).outcome.mono fun _ => State.sameHoldings_perform)

/-- Passes can be made in the foreground. -/
theorem System.Arises.pass (arises : System.Arises setup meanwhile y₀ y) (f : Foreground)
    (ended : (y.run setup f (runPass setup)).1.isSome) :
    System.Arises setup meanwhile y₀ (y.run setup f (runPass setup)).2 :=
  arises.errand f .pass rfl ended

/-- Rules can be deleted in the foreground. -/
theorem System.Arises.delete (arises : System.Arises setup meanwhile y₀ y) (f : Foreground)
    (id : RuleId) (ended : (y.run setup f (deleteRule setup id).outcome).1.isSome) :
    System.Arises setup meanwhile y₀ (y.run setup f (deleteRule setup id).outcome).2 :=
  arises.errand f (.delete id) rfl ended

/-- No lock of a system is taken twice, and no more slots are free than there are. -/
theorem System.Arises.holdings (arises : System.Arises setup State.SameHoldings y₀ y)
    (idle : y₀.tasks = []) (unlocked : y₀.state.locks = [])
    (free : y₀.state.slots = setup.running.slots) :
    y.state.locks.Nodup ∧ y.state.slots ≤ setup.running.slots := by
  obtain ⟨p, places, reachable, within, -⟩ := arises.pooled (fun _ _ _ => ⟨rfl, rfl⟩) idle
  have orderly := reachable.orderly_of_sameHoldings unlocked free
  have slots := orderly.slots
  rw [within.state] at slots
  exact ⟨within.state ▸ orderly.distinct, by omega⟩

theorem System.step?_isSome {t : Task} (ht : t ∈ y.tasks)
    (ready : t.mustWait f y.elapsed y.state = false) : (y.step? f).isSome := by
  unfold step?
  split
  · next none_ready =>
    have waits := List.findIdx?_eq_none_iff.mp none_ready t ht
    simp [ready] at waits
  · next i found =>
    obtain ⟨listed, -⟩ := List.findIdx?_eq_some_iff_getElem.mp found
    rw [List.getElem?_eq_getElem listed]
    rfl

/-- A task whose next request can be carried out goes on, unless the query that it is in has yet to
end. -/
theorem Task.mustWait_cases {t : Task} {r : Request} {next : r.Answer → Program Unit}
    {elapsed : Nat} {s : State} (left : t.rest = .ask r next) (goes_on : s.blocks r = false) :
    t.mustWait .waiting elapsed s = false ∨ ∃ time, t.queryEnd = some time ∧ elapsed < time := by
  cases ends : t.queryEnd with
  | none => simp [mustWait, left, goes_on, ends]
  | some time =>
    by_cases later : elapsed < time
    · exact .inr ⟨time, rfl, later⟩
    · simp [mustWait, left, goes_on, ends, later]

/-- If a query has yet to end, then time passes until the first one ends, unless the task that is in
it goes on at once. -/
theorem System.step?_or_passTime? (coherent : ∀ t ∈ y.tasks, t.Coherent) {t : Task}
    (ht : t ∈ y.tasks) (in_query : t.queryEnd.isSome) :
    (y.step? .waiting).isSome ∨ (y.passTime? none).isSome := by
  obtain ⟨time, ends⟩ := Option.isSome_iff_exists.mp in_query
  have listed : time ∈ y.tasks.filterMap Task.queryEnd := List.mem_filterMap.mpr ⟨t, ht, ends⟩
  cases first : y.nextQueryEnd? with
  | none =>
    rw [List.min?_eq_none_iff.mp first] at listed
    cases listed
  | some time =>
    obtain ⟨t, ht, ends⟩ := List.mem_filterMap.mp (List.min?_mem first)
    obtain ⟨q, next, left⟩ := coherent t ht (by rw [ends]; rfl)
    rcases Task.mustWait_cases left rfl with ready | ⟨_, same, later⟩
    · exact .inl (step?_isSome ht ready)
    · obtain rfl := Option.some.inj (ends.symm.trans same)
      right
      simp [passTime?, first, later]

/-- While tasks are left, one goes on, or time passes until a query ends. -/
theorem System.Pooled.goes_on (h : y.Pooled setup State.KeepsDependencies s₀)
    (unlocked : s₀.locks = []) (free : s₀.slots = setup.running.slots)
    (indexed : s₀.catalog.Indexed) (acyclic : Acyclic s₀.catalog.list) (left : y.tasks ≠ []) :
    (y.step? .waiting).isSome ∨ (y.passTime? none).isSome := by
  obtain ⟨p, places, reachable, within, ended⟩ := h
  have orderly := reachable.orderly_of_keepsDependencies unlocked free indexed
  have task : ∀ x ∈ places, x.1 ∈ y.tasks := fun x hx => within.tasks ▸ List.mem_map_of_mem hx
  have coherent : ∀ t ∈ y.tasks, t.Coherent := by
    intro t ht
    rw [← within.tasks] at ht
    obtain ⟨x, hx, rfl⟩ := List.mem_map.mp ht
    obtain ⟨w, -, suits⟩ := within.suits x hx
    exact suits.coherent
  have some_place : places ≠ [] := by
    rintro rfl
    exact left within.tasks.symm
  obtain ⟨x, hx⟩ := List.exists_mem_of_ne_nil _ some_place
  obtain ⟨w, found, suits⟩ := within.suits x hx
  by_cases finished : w.next? = none
  -- Nothing is left of the task, so that it can be put away.
  · have put_away : x.1.mustWait .waiting y.elapsed y.state = false := by
      simp [Task.mustWait, ← suits.rest, Worker.rest_eq_done finished]
    exact .inl (step?_isSome (task x hx) put_away)
  -- Of the errands that are not done one can go on, and it is a task.
  obtain ⟨w, hw, r, asks, goes_on⟩ :=
    orderly.exists_goesOn acyclic (List.mem_of_getElem? found) finished
  obtain ⟨k, found⟩ := List.mem_iff_getElem?.mp hw
  have place : k ∈ places.map Prod.snd := by
    by_contra apart
    rw [ended k w found apart] at asks
    cases asks
  obtain ⟨x, hx, rfl⟩ := List.mem_map.mp place
  obtain ⟨w', found', suits⟩ := within.suits x hx
  obtain rfl := Option.some.inj (found.symm.trans found')
  obtain ⟨next, rest⟩ := Worker.exists_rest_eq_ask asks
  rcases Task.mustWait_cases (suits.rest ▸ rest) (within.state ▸ goes_on)
    with ready | ⟨time, ends, -⟩
  · exact .inl (step?_isSome (task x hx) ready)
  · exact step?_or_passTime? coherent (task x hx) (by rw [ends]; rfl)

/-- A system over a catalogue without cycles never comes to a stop while it has tasks. -/
theorem System.Arises.goes_on (arises : System.Arises setup State.KeepsDependencies y₀ y)
    (idle : y₀.tasks = []) (unlocked : y₀.state.locks = [])
    (free : y₀.state.slots = setup.running.slots) (indexed : y₀.state.catalog.Indexed)
    (acyclic : Acyclic y₀.state.catalog.list) (left : y.tasks ≠ []) :
    (y.step? .waiting).isSome ∨ (y.passTime? none).isSome := by
  have allowed : AllowsGathering State.KeepsDependencies :=
    fun _ _ _ => ⟨⟨rfl, rfl⟩, fun _ e' found => ⟨e', found, rfl⟩⟩
  exact (arises.pooled allowed idle).goes_on unlocked free indexed acyclic left

end Cohort
