import Cohort.Proofs.Program.Requests
import Cohort.Proofs.Program.Yields

/-!
# The trail of a program

A state says which rows a table holds, but not where they came from. The trail does: for each
table it keeps the state in which the table was written last. No program reads it. It is followed
beside a program, and properties of it pass through the parts of a program as those of the state
do.

## Main definitions

* `Trail` — the last write of each table, and `Trail.note`, which follows a request
* `Program.trail` — the trail after a program
* `Program.Traces`, `Action.Traces` — a program ends with a result, a state and a trail of some kind

## Main results

* `Program.traces_bind`, `Action.traces_bind` — programs one after the other
* `Program.Asks.trail_keeps` — what every request of a program preserves, the program preserves
-/

namespace Cohort

/-- How a table stands to the row of its rule. -/
inductive Standing where
  /-- The source in the row is still the one from when the table was written. -/
  | current
  /-- The row has another source since then. -/
  | changed
  /-- The row has another source since then, and after that the rule got another schedule. -/
  | moved
  deriving DecidableEq, Repr

/-- What is known about a table beside its rows. -/
structure Mark where
  /-- The state in which the table was written last, and the rows that were written. -/
  written : Option (State × Dataset) := none
  standing : Standing := .current

/-- What is known about each table. -/
abbrev Trail := String → Mark

namespace Trail

/-- The trail with another mark on a table. -/
def set (w : Trail) (table : String) (m : Mark) : Trail := fun t => if table = t then m else w t

theorem set_self (w : Trail) (table : String) (m : Mark) : w.set table m table = m := if_pos rfl

theorem set_of_ne (w : Trail) {table t : String} (m : Mark) (h : table ≠ t) :
    w.set table m t = w t := if_neg h

/-- The trail after a request, which writes a table, or drops it, or does neither. -/
def note (w : Trail) (s : State) : Request → Trail
  | .writeTable table rows =>
    match (s.engine.writeTable table rows).1 with
    | .ok _ => w.set table { written := some (s, rows) }
    | .error _ => w
  | .dropTable table =>
    match (s.engine.dropTable table).1 with
    | .ok _ => w.set table {}
    | .error _ => w
  | _ => w

/-- The tables hold what was written last. -/
def Agrees (w : Trail) (s : State) : Prop :=
  ∀ table, s.engine.table? table = (w table).written.map Prod.snd

end Trail

theorem Trail.note_eq {r : Request} (h : r.leavesTables = true) (w : Trail) (s : State) :
    w.note s r = w := by
  cases r <;> simp_all [Request.leavesTables, note]

/-- The trail keeps up with the tables. -/
theorem Trail.Agrees.note {w : Trail} {s : State} (h : w.Agrees s) (r : Request) :
    (w.note s r).Agrees (s.perform r).2 := by
  by_cases kept : r.leavesTables = true
  · intro table
    rw [Trail.note_eq kept, ← h table, Engine.table?, State.perform_tables kept, Engine.table?]
  · cases r <;> simp [Request.leavesTables] at kept
    case writeTable name rows =>
      intro table
      simp only [Trail.note, State.perform, Engine.writeTable]
      split
      · exact h table
      · simp only [Engine.putTable, Engine.table?, Trail.set, Assoc.get?_put]
        split
        · rfl
        · exact h table
    case dropTable name =>
      intro table
      simp only [Trail.note, State.perform, Engine.dropTable]
      split
      · exact h table
      · simp only [Engine.table?, Trail.set, Assoc.get?_erase]
        split
        · rfl
        · exact h table

variable {α β : Type} {s : State} {w : Trail}

namespace Program

/-- The trail after a program that runs alone. -/
def trail : Program α → State → Trail → Trail
  | .done _, _, w => w
  | .ask r next, s, w => (next (s.perform r).1).trail (s.perform r).2 (w.note s r)

theorem trail_bind (p : Program α) (f : α → Program β) (s : State) (w : Trail) :
    (p >>= f).trail s w = (f (p.run s).1).trail (p.run s).2 (p.trail s w) := by
  induction p generalizing s w with
  | done a => rfl
  | ask r next ih => exact ih _ _ _

/-- What every request of a program preserves, the program preserves. -/
theorem Asks.trail_keeps {P : Request → Prop} (inv : State → Trail → Prop) {p : Program α}
    (h : p.Asks P)
    (step : ∀ r s w, P r → inv s w → inv (s.perform r).2 (w.note s r)) (hs : inv s w) :
    inv (p.run s).2 (p.trail s w) := by
  induction p generalizing s w with
  | done a => exact hs
  | ask r next ih =>
    obtain ⟨made, rest⟩ := asks_ask.mp h
    exact ih _ (rest _) (step r s w made hs)

/-- A program that leaves the tables alone leaves the trail alone. -/
theorem trail_eq {p : Program α} (h : p.Asks fun r => r.leavesTables = true) (s : State)
    (w : Trail) : p.trail s w = w :=
  h.trail_keeps (fun _ w' => w' = w)
    (fun _ s w' kept same => (Trail.note_eq kept w' s).trans same) rfl

/-- Run alone, the program ends with a result, a state and a trail that satisfy `post`. -/
def Traces (p : Program α) (s : State) (w : Trail) (post : α → State → Trail → Prop) : Prop :=
  post (p.run s).1 (p.run s).2 (p.trail s w)

variable {post post' : α → State → Trail → Prop}

theorem traces_pure (a : α) : (pure a : Program α).Traces s w post ↔ post a s w := Iff.rfl

theorem traces_call {r : Request} {post : r.Answer → State → Trail → Prop} :
    (call r).Traces s w post ↔ post (s.perform r).1 (s.perform r).2 (w.note s r) := Iff.rfl

/-- A request that leaves the tables alone leaves the trail alone. -/
theorem traces_call_of {r : Request} (kept : r.leavesTables = true)
    {post : r.Answer → State → Trail → Prop} :
    (call r).Traces s w post ↔ post (s.perform r).1 (s.perform r).2 w := by
  rw [traces_call, Trail.note_eq kept]

theorem traces_bind {p : Program α} {f : α → Program β} {post : β → State → Trail → Prop} :
    (p >>= f).Traces s w post ↔ p.Traces s w fun a s' w' => (f a).Traces s' w' post := by
  simp only [Traces, run_bind, trail_bind]

theorem Traces.mono {p : Program α} (h : p.Traces s w post)
    (weaker : ∀ a s' w', post a s' w' → post' a s' w') : p.Traces s w post' :=
  weaker _ _ _ h

theorem traces_iff {p : Program α} :
    p.Traces s w post ↔ post (p.run s).1 (p.run s).2 (p.trail s w) := Iff.rfl

theorem Asks.traces {P : Request → Prop} {p : Program α} (h : p.Asks P)
    (inv : State → Trail → Prop)
    (step : ∀ r s w, P r → inv s w → inv (s.perform r).2 (w.note s r)) (hs : inv s w) :
    p.Traces s w fun _ => inv := h.trail_keeps inv step hs

/-- What is left behind, and what every request preserves besides. -/
theorem Yields.traces {P : Request → Prop} {p : Program α} {post : α → State → Prop}
    (h : p.Yields s post) (inv : State → Trail → Prop) (asks : p.Asks P)
    (step : ∀ r s w, P r → inv s w → inv (s.perform r).2 (w.note s r)) (hs : inv s w) :
    p.Traces s w fun a s' w' => post a s' ∧ inv s' w' :=
  ⟨yields_iff.mp h, asks.trail_keeps inv step hs⟩

end Program

namespace Action

/-- Run alone, the program succeeds with a value, a state and a trail that satisfy `good`, or it
fails and `bad` holds of the state and the trail. -/
def Traces (a : Action α) (s : State) (w : Trail) (good : α → State → Trail → Prop)
    (bad : State → Trail → Prop) : Prop :=
  a.outcome.Traces s w fun result s' w' =>
    match result with
    | .ok v => good v s' w'
    | .error _ => bad s' w'

variable {good good' : α → State → Trail → Prop} {bad bad' : State → Trail → Prop}

theorem traces_pure (v : α) : (pure v : Action α).Traces s w good bad ↔ good v s w := Iff.rfl

theorem traces_throw (e : Failure) : (throw e : Action α).Traces s w good bad ↔ bad s w := Iff.rfl

theorem traces_bind {a : Action α} {f : α → Action β} {good : β → State → Trail → Prop} :
    (a >>= f).Traces s w good bad ↔
      a.Traces s w (fun v s' w' => (f v).Traces s' w' good bad) bad := by
  unfold Traces
  rw [outcome_bind, Program.traces_bind]
  unfold Program.Traces
  cases (a.outcome.run s).1 <;> exact Iff.rfl

theorem traces_of {p : Program α} : (of p).Traces s w good bad ↔ p.Traces s w good := by
  change (p >>= fun v => pure (Except.ok v)).Traces s w _ ↔ _
  rw [Program.traces_bind]
  rfl

theorem traces_check {p : Program (Except Failure α)} :
    (check p).Traces s w good bad ↔ p.Traces s w fun result s' w' =>
      match result with
      | .ok v => good v s' w'
      | .error _ => bad s' w' := Iff.rfl

theorem traces_call {r : Request} {good : r.Answer → State → Trail → Prop} :
    (call r).Traces s w good bad ↔ good (s.perform r).1 (s.perform r).2 (w.note s r) := by
  unfold call
  rw [traces_of, Program.traces_call]

/-- A request that leaves the tables alone leaves the trail alone. -/
theorem traces_call_of {r : Request} (kept : r.leavesTables = true)
    {good : r.Answer → State → Trail → Prop} :
    (call r).Traces s w good bad ↔ good (s.perform r).1 (s.perform r).2 w := by
  rw [traces_call, Trail.note_eq kept]

theorem Traces.mono {a : Action α} (h : a.Traces s w good bad)
    (weakerGood : ∀ v s' w', good v s' w' → good' v s' w')
    (weakerBad : ∀ s' w', bad s' w' → bad' s' w') : a.Traces s w good' bad' := by
  refine Program.Traces.mono h fun result s' w' hr => ?_
  cases result with
  | ok v => exact weakerGood v s' w' hr
  | error e => exact weakerBad s' w' hr

/-- The outcome of a program as a value. -/
theorem Traces.outcome {a : Action α} {post : Except Failure α → State → Trail → Prop}
    (h : a.Traces s w (fun v => post (.ok v)) bad)
    (failed : ∀ e s' w', bad s' w' → post (.error e) s' w') : a.outcome.Traces s w post := by
  refine Program.Traces.mono h fun result s' w' hr => ?_
  cases result with
  | ok v => exact hr
  | error e => exact failed e s' w' hr

/-- What is left behind, and what every request preserves besides. -/
theorem Yields.traces {P : Request → Prop} {a : Action α} {good : α → State → Prop}
    {bad : Failure → State → Prop} (h : a.Yields s good bad) (inv : State → Trail → Prop)
    (asks : a.Asks P) (step : ∀ r s w, P r → inv s w → inv (s.perform r).2 (w.note s r))
    (hs : inv s w) :
    a.Traces s w (fun v s' w' => good v s' ∧ inv s' w')
      fun s' w' => (∃ e, bad e s') ∧ inv s' w' := by
  have outcome : a.outcome.Yields s fun result s' =>
      match result with
      | .ok v => good v s'
      | .error e => bad e s' := outcome_yields.mpr h
  refine Program.Traces.mono (outcome.traces inv asks.outcome step hs) ?_
  rintro (e | v) s' w' ⟨hr, kept⟩
  · exact ⟨⟨e, hr⟩, kept⟩
  · exact ⟨hr, kept⟩

/-- Repeated steps preserve what each step preserves. -/
theorem traces_foldlM {f : β → α → Action β} (inv : β → State → Trail → Prop)
    (step : ∀ b a s w, inv b s w → (f b a).Traces s w inv bad) :
    ∀ (l : List α) (b : β) (s : State) (w : Trail), inv b s w →
      (l.foldlM f b).Traces s w inv bad := by
  intro l
  induction l with
  | nil => exact fun b s w h => h
  | cons a rest ih =>
    intro b s w h
    rw [List.foldlM_cons, traces_bind]
    exact (step b a s w h).mono (fun b' s' w' h' => ih b' s' w' h') fun _ _ he => he

end Action

-- A program is taken apart by the lemmas above, and never run in search of the shape of a goal.
attribute [irreducible] Program.Traces Action.Traces

end Cohort
