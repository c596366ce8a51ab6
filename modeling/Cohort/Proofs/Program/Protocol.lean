import Cohort.Proofs.Program.Requests
import Cohort.Proofs.Program.Yields

/-!
# Protocols

What a program may ask for next can depend on what it was told before. A protocol keeps an account
of the answers so far: it says which requests are in order, and how the account can stand after an
answer. Where an answer comes from is left to the protocol, so that other programs can make their
requests in between.

## Main definitions

* `Protocol` — which requests are in order, and what an answer makes of the account
* `Program.Follows`, `Action.Follows` — a program keeps to a protocol, and ends with an account of
  some kind

## Main results

* `Program.follows_bind`, `Action.Follows.bind` — programs one after the other
* `Program.Asks.follows` — what each request preserves, a program preserves
* `Action.follows_foldlM`, `Action.follows_mapM` — repeated programs, by an invariant
* `Action.outcome_follows_bind` — programs one after the other, where failures matter
-/

namespace Cohort

/-- Rules for the requests of a program, by an account of the answers so far. -/
structure Protocol (σ : Type) where
  /-- The request is in order. -/
  Admits : σ → Request → Prop
  /-- After this answer the account can stand like this. -/
  Leads : σ → (r : Request) → r.Answer → σ → Prop

variable {α β σ : Type} {P : Protocol σ} {x : σ} {r : Request}

namespace Program

/-- All requests of the program are in order, whatever the answers are, and it ends with a result
and an account that satisfy `post`. -/
def Follows (P : Protocol σ) : Program α → σ → (α → σ → Prop) → Prop
  | .done a, x, post => post a x
  | .ask r next, x, post => P.Admits x r ∧ ∀ answer x', P.Leads x r answer x' →
      (next answer).Follows P x' post

variable {post post' : α → σ → Prop}

theorem follows_pure (a : α) : (pure a : Program α).Follows P x post ↔ post a x := Iff.rfl

theorem follows_ask {next : r.Answer → Program α} : (ask r next).Follows P x post ↔
    P.Admits x r ∧ ∀ answer x', P.Leads x r answer x' → (next answer).Follows P x' post := Iff.rfl

theorem follows_call {post : r.Answer → σ → Prop} : (call r).Follows P x post ↔
    P.Admits x r ∧ ∀ answer x', P.Leads x r answer x' → post answer x' := Iff.rfl

theorem follows_bind {p : Program α} {f : α → Program β} {post : β → σ → Prop} :
    (p >>= f).Follows P x post ↔ p.Follows P x fun a x' => (f a).Follows P x' post := by
  induction p generalizing x with
  | done a => exact Iff.rfl
  | ask r next ih =>
    exact and_congr_right' (forall₃_congr fun answer x' _ => ih answer)

theorem follows_call_bind {f : r.Answer → Program β} {post : β → σ → Prop} :
    (call r >>= f).Follows P x post ↔
      P.Admits x r ∧ ∀ answer x', P.Leads x r answer x' → (f answer).Follows P x' post := Iff.rfl

theorem Follows.mono {p : Program α} (h : p.Follows P x post)
    (weaker : ∀ a x', post a x' → post' a x') : p.Follows P x post' := by
  induction p generalizing x with
  | done a => exact weaker a x h
  | ask r next ih => exact ⟨h.1, fun answer x' leads => ih answer (h.2 answer x' leads)⟩

/-- What is known of a program in two ways is known of it in one. -/
theorem Follows.and {p : Program α} (h : p.Follows P x post) (h' : p.Follows P x post') :
    p.Follows P x fun a x' => post a x' ∧ post' a x' := by
  induction p generalizing x with
  | done a => exact ⟨h, h'⟩
  | ask r next ih =>
    exact ⟨h.1, fun answer x' leads => ih answer (h.2 answer x' leads) (h'.2 answer x' leads)⟩

/-- What is known of a program for each of some things is known of it for all of them. -/
theorem Follows.all {ι : Type} [Nonempty ι] {p : Program α} {post : ι → α → σ → Prop}
    (h : ∀ i, p.Follows P x (post i)) : p.Follows P x fun a x' => ∀ i, post i a x' := by
  induction p generalizing x with
  | done a => exact h
  | ask r next ih =>
    obtain ⟨i⟩ := ‹Nonempty ι›
    exact ⟨(h i).1, fun answer x' leads => ih answer fun i => (h i).2 answer x' leads⟩

/-- A program goes on where the one before it ends. -/
theorem Follows.bind {p : Program α} {f : α → Program β} {post' : β → σ → Prop}
    (h : p.Follows P x post) (next : ∀ a x', post a x' → (f a).Follows P x' post') :
    (p >>= f).Follows P x post' :=
  follows_bind.mpr (h.mono next)

/-- What each request of a program preserves, the program preserves. -/
theorem Asks.follows {p : Program α} {K : Request → Prop} (asks : p.Asks K) (inv : σ → Prop)
    (step : ∀ r x, K r → inv x → P.Admits x r ∧ ∀ answer x', P.Leads x r answer x' → inv x')
    (h : inv x) : p.Follows P x fun _ => inv := by
  induction p generalizing x with
  | done a => exact h
  | ask r next ih =>
    obtain ⟨made, rest⟩ := asks_ask.mp asks
    obtain ⟨admitted, kept⟩ := step r x made h
    exact ⟨admitted, fun answer x' leads => ih answer (rest answer) (kept answer x' leads)⟩

end Program

namespace Action

/-- All requests of the program are in order. It either succeeds with a value, so that `good` holds
of it and of the account, or it fails and `bad` holds of the account. -/
def Follows (P : Protocol σ) (a : Action α) (x : σ) (good : α → σ → Prop) (bad : σ → Prop) : Prop :=
  a.outcome.Follows P x fun result x' =>
    match result with
    | .ok v => good v x'
    | .error _ => bad x'

variable {good good' : α → σ → Prop} {bad bad' : σ → Prop}

theorem follows_pure (v : α) : (pure v : Action α).Follows P x good bad ↔ good v x := Iff.rfl

theorem follows_throw (e : Failure) : (throw e : Action α).Follows P x good bad ↔ bad x := Iff.rfl

theorem follows_bind {a : Action α} {f : α → Action β} {good : β → σ → Prop} :
    (a >>= f).Follows P x good bad ↔
      a.Follows P x (fun v x' => (f v).Follows P x' good bad) bad := by
  unfold Follows
  rw [outcome_bind, Program.follows_bind]
  refine ⟨fun h => h.mono ?_, fun h => h.mono ?_⟩ <;>
  · rintro (e | v) x' h
    · exact h
    · exact h

theorem follows_of {p : Program α} : (of p).Follows P x good bad ↔ p.Follows P x good :=
  Program.follows_bind

theorem follows_check {p : Program (Except Failure α)} :
    (check p).Follows P x good bad ↔ p.Follows P x fun result x' =>
      match result with
      | .ok v => good v x'
      | .error _ => bad x' := Iff.rfl

theorem follows_call {good : r.Answer → σ → Prop} : (call r).Follows P x good bad ↔
    P.Admits x r ∧ ∀ answer x', P.Leads x r answer x' → good answer x' :=
  follows_of.trans Program.follows_call

theorem follows_call_bind {f : r.Answer → Action β} {good : β → σ → Prop} :
    (call r >>= f).Follows P x good bad ↔ P.Admits x r ∧
      ∀ answer x', P.Leads x r answer x' → (f answer).Follows P x' good bad :=
  follows_bind.trans follows_call

/-- The outcome of a program is looked at. -/
theorem follows_of_bind {p : Program α} {f : α → Action β} {good : β → σ → Prop} :
    (of p >>= f).Follows P x good bad ↔
      p.Follows P x fun v x' => (f v).Follows P x' good bad :=
  follows_bind.trans follows_of

theorem Follows.mono {a : Action α} (h : a.Follows P x good bad)
    (weakerGood : ∀ v x', good v x' → good' v x') (weakerBad : ∀ x', bad x' → bad' x') :
    a.Follows P x good' bad' := by
  refine Program.Follows.mono h ?_
  rintro (e | v) x' h
  · exact weakerBad x' h
  · exact weakerGood v x' h

/-- A program goes on where the one before it succeeds. -/
theorem Follows.bind {a : Action α} {f : α → Action β} {good' : β → σ → Prop}
    (h : a.Follows P x good bad) (next : ∀ v x', good v x' → (f v).Follows P x' good' bad) :
    (a >>= f).Follows P x good' bad :=
  follows_bind.mpr (h.mono next fun _ failed => failed)

/-- The outcome of a program as a value, with success and failure apart. -/
theorem Follows.outcome {a : Action α} {post : Except Failure α → σ → Prop}
    (h : a.Follows P x good bad) (ok : ∀ v x', good v x' → post (.ok v) x')
    (error : ∀ e x', bad x' → post (.error e) x') : a.outcome.Follows P x post := by
  refine Program.Follows.mono h ?_
  rintro (e | v) x' h
  · exact error e x' h
  · exact ok v x' h

/-- What holds of the value of a program that succeeds. -/
theorem Follows.outcome_ok {a : Action α} (h : a.Follows P x good bad) :
    a.outcome.Follows P x fun result x' => ∀ v, result = .ok v → good v x' := by
  refine h.outcome ?_ ?_
  · intro v x' kept v' same
    obtain rfl := Except.ok.inj same
    exact kept
  · intro e x' _ v never
    cases never

/-- What each request of a program preserves, the program preserves. -/
theorem Asks.follows {a : Action α} {K : Request → Prop} (asks : a.Asks K) (inv : σ → Prop)
    (step : ∀ r x, K r → inv x → P.Admits x r ∧ ∀ answer x', P.Leads x r answer x' → inv x')
    (h : inv x) : a.Follows P x (fun _ => inv) inv := by
  refine (Program.Asks.follows asks.outcome inv step h).mono ?_
  rintro (e | v) x' h
  · exact h
  · exact h

/-- The outcome of programs one after the other: a failure is the last thing that happens. -/
theorem outcome_follows_bind {a : Action α} {f : α → Action β}
    {post : Except Failure β → σ → Prop} :
    (a >>= f).outcome.Follows P x post ↔ a.outcome.Follows P x fun result x' =>
      match result with
      | .ok v => (f v).outcome.Follows P x' post
      | .error e => post (.error e) x' := by
  rw [outcome_bind, Program.follows_bind]
  refine ⟨fun h => h.mono ?_, fun h => h.mono ?_⟩ <;>
  · rintro (e | v) x' h
    · exact h
    · exact h

/-- A program goes on after something that does not fail by itself. -/
theorem outcome_follows_of_bind {p : Program α} {f : α → Action β}
    {post : Except Failure β → σ → Prop} :
    (of p >>= f).outcome.Follows P x post ↔
      p.Follows P x fun v x' => (f v).outcome.Follows P x' post := by
  rw [outcome_of_bind, Program.follows_bind]

/-- A repeated program, by an invariant of the elements to come, the value and the account. -/
theorem follows_foldlM_rest {f : β → α → Action β} (inv : List α → β → σ → Prop)
    (step : ∀ a rest b x, inv (a :: rest) b x → (f b a).Follows P x (inv rest) bad) (l : List α)
    (b : β) (h : inv l b x) : (l.foldlM f b).Follows P x (inv []) bad := by
  induction l generalizing b x with
  | nil => exact h
  | cons a rest ih =>
    rw [List.foldlM_cons]
    exact (step a rest b x h).bind fun b' x' h' => ih b' h'

/-- A program for each element of a list, by an invariant of the values so far and the elements to
come. -/
theorem follows_mapM {f : α → Action β} (inv : List β → List α → σ → Prop)
    (step : ∀ bs a rest x, inv bs (a :: rest) x →
      (f a).Follows P x (fun b x' => inv (bs ++ [b]) rest x') bad) (l : List α) (bs : List β)
    (h : inv bs l x) : (l.mapM f).Follows P x (fun bs' x' => inv (bs ++ bs') [] x') bad := by
  induction l generalizing bs x with
  | nil =>
    rw [List.mapM_nil, follows_pure, List.append_nil]
    exact h
  | cons a rest ih =>
    rw [List.mapM_cons]
    refine (step bs a rest x h).bind fun b x' h' => ?_
    refine (ih (bs ++ [b]) h').bind fun bs' x'' h'' => (follows_pure _).mpr ?_
    rwa [List.append_assoc] at h''

/-- Repeated steps preserve what each step preserves. -/
theorem follows_foldlM {f : β → α → Action β} (inv : σ → Prop) (l : List α)
    (step : ∀ b, ∀ a ∈ l, ∀ x, inv x → (f b a).Follows P x (fun _ => inv) inv) (b : β)
    (h : inv x) : (l.foldlM f b).Follows P x (fun _ => inv) inv := by
  -- The elements to come are among those of the list.
  refine (follows_foldlM_rest (fun rest _ x' => rest ⊆ l ∧ inv x') ?_ l b
    ⟨List.Subset.refl l, h⟩).mono (fun _ _ kept => kept.2) fun _ kept => kept
  rintro a rest b x' ⟨within, kept⟩
  refine (step b a (within List.mem_cons_self) x' kept).mono (fun _ x'' kept' => ?_)
    fun _ kept' => kept'
  exact ⟨fun _ later => within (List.mem_cons_of_mem _ later), kept'⟩

end Action

-- A program is taken apart by the lemmas above, and never evaluated.
attribute [irreducible] Program.Follows Action.Follows

end Cohort
