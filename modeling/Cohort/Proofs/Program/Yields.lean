import Cohort.Proofs.Program.Requests

/-!
# What a program leaves behind

A program that runs alone maps a state to a result and a state. This module states
properties of both as predicates that pass through the parts of a program one after the
other, so that a proof about an operation follows its text.

## Main definitions

* `Program.Yields` — run alone, a program ends with a result and a state of some kind
* `Action.Yields` — the same for programs that can fail, with success and failure apart

## Main results

* `Program.yields_bind`, `Action.yields_bind` — programs one after the other
* `Action.yields_foldlM`, `Action.yields_mapM` — repeated programs, by an invariant
-/

namespace Cohort

variable {α β γ : Type} {s : State}

namespace Program

/-- Run alone from a state, the program ends with a result and a state that satisfy `post`. -/
def Yields (p : Program α) (s : State) (post : α → State → Prop) : Prop :=
  post (p.run s).1 (p.run s).2

variable {post post' : α → State → Prop}

@[simp] theorem yields_pure (a : α) : (pure a : Program α).Yields s post ↔ post a s := Iff.rfl

@[simp] theorem yields_call {r : Request} {post : r.Answer → State → Prop} :
    (call r).Yields s post ↔ post (s.perform r).1 (s.perform r).2 := Iff.rfl

@[simp] theorem yields_bind {p : Program α} {f : α → Program β} {post : β → State → Prop} :
    (p >>= f).Yields s post ↔ p.Yields s fun a s' => (f a).Yields s' post := by
  simp only [Yields, run_bind]

theorem Yields.mono {p : Program α} (h : p.Yields s post)
    (weaker : ∀ a s', post a s' → post' a s') : p.Yields s post' :=
  weaker _ _ h

theorem yields_iff {p : Program α} : p.Yields s post ↔ post (p.run s).1 (p.run s).2 := Iff.rfl

end Program

namespace Action

/-- Run alone from a state, the program either succeeds with a value and a state that satisfy
`good`, or it fails and `bad` holds of the failure and the state. -/
def Yields (a : Action α) (s : State) (good : α → State → Prop)
    (bad : Failure → State → Prop) : Prop :=
  a.outcome.Yields s fun result s' =>
    match result with
    | .ok v => good v s'
    | .error e => bad e s'

variable {good good' : α → State → Prop} {bad bad' : Failure → State → Prop}

@[simp] theorem outcome_pure (v : α) : (pure v : Action α).outcome = pure (.ok v) := rfl

@[simp] theorem outcome_throw (e : Failure) :
    (throw e : Action α).outcome = pure (.error e) := rfl

@[simp] theorem outcome_check (p : Program (Except Failure α)) : (check p).outcome = p := rfl

@[simp] theorem yields_pure (v : α) : (pure v : Action α).Yields s good bad ↔ good v s := Iff.rfl

@[simp] theorem yields_throw (e : Failure) :
    (throw e : Action α).Yields s good bad ↔ bad e s := Iff.rfl

theorem outcome_bind (a : Action α) (f : α → Action β) :
    (a >>= f).outcome = a.outcome >>= fun result =>
      match result with
      | .ok v => (f v).outcome
      | .error e => pure (.error e) := by
  change (a.outcome >>= ExceptT.bindCont f) = _
  congr 1
  funext result
  cases result <;> rfl

theorem outcome_of_bind (p : Program α) (f : α → Action β) :
    (of p >>= f).outcome = p >>= fun v => (f v).outcome := by
  rw [outcome_bind]
  change ((p >>= fun v => pure (Except.ok v)) >>= _) = _
  rw [LawfulMonad.bind_assoc]
  rfl

@[simp] theorem yields_bind {a : Action α} {f : α → Action β} {good : β → State → Prop} :
    (a >>= f).Yields s good bad ↔ a.Yields s (fun v s' => (f v).Yields s' good bad) bad := by
  unfold Yields
  rw [outcome_bind, Program.yields_bind]
  unfold Program.Yields
  cases (a.outcome.run s).1 <;> exact Iff.rfl

@[simp] theorem yields_of {p : Program α} :
    (of p).Yields s good bad ↔ p.Yields s good := by
  change (p >>= fun v => pure (Except.ok v)).Yields s _ ↔ _
  rw [Program.yields_bind]
  rfl

@[simp] theorem yields_check {p : Program (Except Failure α)} :
    (check p).Yields s good bad ↔ p.Yields s fun result s' =>
      match result with
      | .ok v => good v s'
      | .error e => bad e s' := Iff.rfl

@[simp] theorem yields_call {r : Request} {good : r.Answer → State → Prop} :
    (call r).Yields s good bad ↔ good (s.perform r).1 (s.perform r).2 := by
  unfold call
  rw [yields_of, Program.yields_call]

theorem Yields.mono {a : Action α} (h : a.Yields s good bad)
    (weakerGood : ∀ v s', good v s' → good' v s') (weakerBad : ∀ e s', bad e s' → bad' e s') :
    a.Yields s good' bad' := by
  refine Program.Yields.mono h fun result s' hr => ?_
  cases result with
  | ok v => exact weakerGood v s' hr
  | error e => exact weakerBad e s' hr

/-- A program that cannot fail promises anything for its failure. -/
theorem Yields.of_success {a : Action α} (h : a.Yields s good fun _ _ => False)
    (weaker : ∀ v s', good v s' → good' v s') : a.Yields s good' bad :=
  h.mono weaker fun _ _ never => never.elim

/-- The outcome of a program as a value, with success and failure apart. -/
theorem outcome_yields {a : Action α} {post : Except Failure α → State → Prop} :
    a.outcome.Yields s post ↔ a.Yields s (fun v => post (.ok v)) (fun e => post (.error e)) := by
  unfold Yields Program.Yields
  cases (a.outcome.run s).1 <;> exact Iff.rfl

/-- A run that is known promises what holds of its outcome. -/
theorem Yields.of_run_ok {a : Action α} {v : α} {s' : State}
    (run : a.outcome.run s = (.ok v, s')) (h : good v s') : a.Yields s good bad := by
  unfold Yields Program.Yields
  rw [run]
  exact h

theorem Yields.of_run_error {a : Action α} {e : Failure} {s' : State}
    (run : a.outcome.run s = (.error e, s')) (h : bad e s') : a.Yields s good bad := by
  unfold Yields Program.Yields
  rw [run]
  exact h

/-- What the last part of a program promises for every value, whatever the state, does not depend
on the rest. -/
theorem yields_bind_of_forall {a : Action α} {f : α → Action β} {good : β → State → Prop}
    (h : ∀ v s', (f v).Yields s' good fun _ _ => True) :
    (a >>= f).Yields s good fun _ _ => True := by
  rw [yields_bind]
  unfold Yields Program.Yields
  cases (a.outcome.run s).1 with
  | ok v => exact h v _
  | error e => trivial

/-- A program that cannot fail succeeds. -/
theorem Yields.exists_run_ok {a : Action α} (h : a.Yields s good fun _ _ => False) :
    ∃ v s', a.outcome.run s = (.ok v, s') ∧ good v s' := by
  unfold Yields Program.Yields at h
  cases result : (a.outcome.run s).1 with
  | ok v =>
    rw [result] at h
    exact ⟨v, _, Prod.ext result rfl, h⟩
  | error e =>
    rw [result] at h
    exact h.elim

/-- The state after a program of which success and failure promise the same. -/
theorem Yields.state {a : Action α} {P : State → Prop}
    (h : a.Yields s (fun _ => P) fun _ => P) : P (a.outcome.run s).2 := by
  unfold Yields Program.Yields at h
  cases hr : (a.outcome.run s).1 <;> simpa [hr] using h

/-- What every request preserves holds besides. -/
theorem Yields.and_keeps {a : Action α} (h : a.Yields s good bad) (inv : State → Prop)
    (step : ∀ r s, inv s → inv (s.perform r).2) (hs : inv s) :
    a.Yields s (fun v s' => good v s' ∧ inv s') fun e s' => bad e s' ∧ inv s' := by
  have kept : inv (a.outcome.run s).2 :=
    (Program.asks_any a.outcome).keeps inv (fun r s _ => step r s) hs
  unfold Yields Program.Yields at *
  cases hr : (a.outcome.run s).1 <;> simpa [hr, kept] using h

/-- Repeated steps preserve what each step preserves. -/
theorem yields_foldlM {f : β → α → Action β} (inv : List α → β → State → Prop)
    (step : ∀ a rest b s, inv (a :: rest) b s → (f b a).Yields s (inv rest) bad) :
    ∀ (l : List α) (b : β) (s : State), inv l b s → (l.foldlM f b).Yields s (inv []) bad := by
  intro l
  induction l with
  | nil => exact fun b s h => h
  | cons a rest ih =>
    intro b s h
    rw [List.foldlM_cons, yields_bind]
    exact (step a rest b s h).mono (fun b' s' h' => ih b' s' h') fun _ _ he => he

/-- A program for each element of a list: the results so far and the elements to come satisfy
an invariant. -/
theorem yields_mapM {f : α → Action β} (inv : List β → List α → State → Prop)
    (step : ∀ bs a rest s, inv bs (a :: rest) s →
      (f a).Yields s (fun b s' => inv (bs ++ [b]) rest s') bad) :
    ∀ (l : List α) (bs : List β) (s : State), inv bs l s →
      (l.mapM f).Yields s (fun bs' s' => inv (bs ++ bs') [] s') bad := by
  intro l
  induction l with
  | nil =>
    intro bs s h
    rw [List.mapM_nil, yields_pure, List.append_nil]
    exact h
  | cons a rest ih =>
    intro bs s h
    simp only [List.mapM_cons, yields_bind, yields_pure]
    refine (step bs a rest s h).mono (fun b s' h' => ?_) fun _ _ he => he
    refine (ih (bs ++ [b]) s' h').mono (fun bs' s'' h'' => ?_) fun _ _ he => he
    rwa [List.append_assoc] at h''

end Action

-- A program is taken apart by the lemmas above, and never run in search of the shape of a goal.
attribute [irreducible] Program.Yields Action.Yields

end Cohort
