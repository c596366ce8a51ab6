import Cohort.Proofs.Program.Protocol

/-!
# What programs fail with

With which failures a program can end follows from its text, whatever the answers to its requests
are. Beside a protocol, which tells success and failure apart but not one failure from another, this
says more about the state in which a failure was left behind.

## Main definitions

* `Program.Returns` — every result of a program is of some kind
* `Action.Raises` — every failure of a program is of some kind

## Main results

* `Program.Follows.and_returns` — a protocol and the results of a program
* `Action.Follows.outcome_raises` — a protocol and the failures of a program
* `Action.raises_bind`, `Action.raises_foldlM`, `Action.raises_mapM` — programs one after the other
-/

namespace Cohort

variable {α β σ : Type} {P : Protocol σ} {x : σ}

namespace Program

/-- Every result of the program satisfies a predicate, whatever the answers are. -/
def Returns (Q : α → Prop) : Program α → Prop
  | .done a => Q a
  | .ask _ next => ∀ answer, (next answer).Returns Q

variable {Q Q' : α → Prop}

theorem returns_pure (a : α) : (pure a : Program α).Returns Q ↔ Q a := Iff.rfl

theorem returns_bind {p : Program α} {f : α → Program β} {Q : β → Prop} :
    (p >>= f).Returns Q ↔ p.Returns fun a => (f a).Returns Q := by
  induction p with
  | done a => exact Iff.rfl
  | ask r next ih => exact forall_congr' ih

theorem Returns.mono {p : Program α} (h : p.Returns Q) (weaker : ∀ a, Q a → Q' a) :
    p.Returns Q' := by
  induction p with
  | done a => exact weaker a h
  | ask r next ih => exact fun answer => ih answer (h answer)

theorem returns_any (p : Program α) : p.Returns fun _ => True := by
  induction p with
  | done a => trivial
  | ask r next ih => exact ih

/-- What holds of every result holds at the end of a program that keeps to a protocol. -/
theorem Follows.and_returns {p : Program α} {post : α → σ → Prop} (h : p.Follows P x post)
    (returns : p.Returns Q) : p.Follows P x fun a x' => post a x' ∧ Q a := by
  induction p generalizing x with
  | done a => exact (follows_pure a).mpr ⟨(follows_pure a).mp h, returns⟩
  | ask r next ih =>
    obtain ⟨admitted, goes_on⟩ := follows_ask.mp h
    exact follows_ask.mpr
      ⟨admitted, fun answer x' leads => ih answer (goes_on answer x' leads) (returns answer)⟩

end Program

namespace Action

/-- Every failure of the program satisfies a predicate, whatever the answers are. -/
def Raises (F : Failure → Prop) (a : Action α) : Prop :=
  a.outcome.Returns fun result => ∀ e, result = .error e → F e

variable {F : Failure → Prop}

theorem raises_pure (v : α) : (pure v : Action α).Raises F := nofun

theorem raises_throw {e : Failure} : (throw e : Action α).Raises F ↔ F e := by
  unfold Raises
  rw [outcome_throw, Program.returns_pure]
  exact ⟨fun h => h e rfl, fun h _ same => Except.error.inj same ▸ h⟩

theorem raises_check {p : Program (Except Failure α)} :
    (check p).Raises F ↔ p.Returns fun result => ∀ e, result = .error e → F e := Iff.rfl

theorem raises_bind {a : Action α} {f : α → Action β} (ha : a.Raises F)
    (hf : ∀ v, (f v).Raises F) : (a >>= f).Raises F := by
  unfold Raises
  rw [outcome_bind, Program.returns_bind]
  refine Program.Returns.mono ha ?_
  rintro (e | v) raised
  · exact raises_throw.mpr (raised e rfl)
  · exact hf v

theorem raises_of (p : Program α) : (of p).Raises F :=
  Program.returns_bind.mpr (p.returns_any.mono fun _ _ => nofun)

/-- A program goes on after something that does not fail by itself. -/
theorem raises_of_bind {p : Program α} {f : α → Action β} (hf : ∀ v, (f v).Raises F) :
    (of p >>= f).Raises F :=
  raises_bind (raises_of p) hf

/-- The outcome of a program is looked at, whose failures are of some kind. -/
theorem raises_outcome_bind {a : Action α} {f : Except Failure α → Action β} {G : Failure → Prop}
    (ha : a.Raises G) (ok : ∀ v, (f (.ok v)).Raises F)
    (error : ∀ e, G e → (f (.error e)).Raises F) : (of a.outcome >>= f).Raises F := by
  unfold Raises
  rw [outcome_of_bind, Program.returns_bind]
  refine Program.Returns.mono ha ?_
  rintro (e | v) raised
  · exact error e (raised e rfl)
  · exact ok v

theorem raises_foldlM {f : β → α → Action β} (l : List α) (b : β)
    (step : ∀ b a, (f b a).Raises F) : (l.foldlM f b).Raises F := by
  induction l generalizing b with
  | nil => exact raises_pure b
  | cons a rest ih => exact raises_bind (step b a) ih

theorem raises_mapM {f : α → Action β} (l : List α) (step : ∀ a, (f a).Raises F) :
    (l.mapM f).Raises F := by
  induction l with
  | nil =>
    rw [List.mapM_nil]
    exact raises_pure []
  | cons a rest ih =>
    rw [List.mapM_cons]
    exact raises_bind (step a) fun b => raises_bind ih fun bs => raises_pure _

/-- The outcome of a program that keeps to a protocol, with what is known about its failures. -/
theorem Follows.outcome_raises {a : Action α} {good : α → σ → Prop} {bad : σ → Prop}
    {post : Except Failure α → σ → Prop} (h : a.Follows P x good bad) (raises : a.Raises F)
    (ok : ∀ v x', good v x' → post (.ok v) x') (error : ∀ e x', bad x' → F e → post (.error e) x') :
    a.outcome.Follows P x post := by
  have follows : a.outcome.Follows P x fun result x' =>
      (∀ v, result = .ok v → good v x') ∧ ∀ e, result = .error e → bad x' := by
    refine h.outcome (fun v x' holds => ?_) fun e x' holds => ?_
    · exact ⟨fun _ same => Except.ok.inj same ▸ holds, fun _ same => by cases same⟩
    · exact ⟨fun _ same => (by cases same), fun _ _ => holds⟩
  have both := follows.and_returns
    (Q := fun result => ∀ e, result = Except.error e → F e) raises
  refine both.mono ?_
  rintro (e | v) x' ⟨⟨good, bad⟩, raised⟩
  · exact error e x' (bad e rfl) (raised e rfl)
  · exact ok v x' (good v rfl)

end Action

-- Programs are taken apart by the lemmas above, and never evaluated.
attribute [irreducible] Program.Returns Action.Raises

end Cohort
