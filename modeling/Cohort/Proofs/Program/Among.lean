import Cohort.Proofs.Program.Protocol

/-!
# Programs among other changes

Other things happen while a program goes on. What they can do to the state is given by a relation,
and they can do it before each request of the program and after the last one. A program that runs
alone is one among changes that change nothing.

## Main definitions

* `Program.EndsAmong` — a program ends with a result and a state, among changes of some kind
* `Program.Passes` — a state comes up while a program goes on, among changes of some kind
* `Protocol.among` — the account is the state, and the changes come in between
* `Protocol.guarded` — besides, only some requests are in order

## Main results

* `Program.Follows.of_endsAmong` — what a program that follows this protocol ends with
* `Program.Follows.passes` — what holds of every state that comes up
* `Program.follows_among_bind`, `Action.follows_among_bind` — a request, and the rest after it
* `Program.Asks.follows_among`, `Action.Asks.follows_among` — what each request preserves after a
  change, a program preserves
-/

namespace Cohort

variable {α β : Type} {R : State → State → Prop} {s s' : State} {r : Request}

/-- The program ends with a result and a state. Before each request, and at the end, the state can
change as the relation says. -/
inductive Program.EndsAmong (R : State → State → Prop) {α : Type} :
    Program α → State → α → State → Prop
  | done (a : α) {s s' : State} (change : R s s') : EndsAmong R (.done a) s a s'
  | ask {r : Request} {next : r.Answer → Program α} {s s₁ s' : State} {a : α} (change : R s s₁)
      (rest : EndsAmong R (next (s₁.perform r).1) (s₁.perform r).2 a s') :
      EndsAmong R (.ask r next) s a s'

/-- What ends among changes of some kind ends among more of them. -/
theorem Program.EndsAmong.mono {R' : State → State → Prop} {p : Program α} {a : α}
    (h : p.EndsAmong R s a s') (weaker : ∀ s s', R s s' → R' s s') : p.EndsAmong R' s a s' := by
  induction h with
  | done a change => exact .done a (weaker _ _ change)
  | ask change _ ih => exact .ask (weaker _ _ change) ih

/-- The state comes up while the program goes on: before one of its requests, or at its end. -/
inductive Program.Passes (R : State → State → Prop) {α : Type} :
    Program α → State → State → Prop
  | now (p : Program α) {s s' : State} (change : R s s') : Passes R p s s'
  | later {r : Request} {next : r.Answer → Program α} {s s₁ s' : State} (change : R s s₁)
      (rest : Passes R (next (s₁.perform r).1) (s₁.perform r).2 s') :
      Passes R (.ask r next) s s'

/-- A program comes to the state that it ends with. -/
theorem Program.EndsAmong.passes {p : Program α} {a : α} (h : p.EndsAmong R s a s') :
    p.Passes R s s' := by
  induction h with
  | done a change => exact .now _ change
  | ask change _ ih => exact .later change ih

/-- A program that runs alone is one for which nothing else changes. This need be said only of
states of some kind, if its requests lead to no others. -/
theorem Program.endsAmong_run_of (inv : State → Prop) (unchanged : ∀ s, inv s → R s s)
    (kept : ∀ s r, inv s → inv (s.perform r).2) (p : Program α) (h : inv s) :
    p.EndsAmong R s (p.run s).1 (p.run s).2 := by
  induction p generalizing s with
  | done a => exact .done a (unchanged s h)
  | ask r next ih => exact .ask (unchanged s h) (ih _ (kept s r h))

/-- A program that runs alone is one for which nothing else changes. -/
theorem Program.endsAmong_run (unchanged : ∀ s, R s s) (p : Program α) (s : State) :
    p.EndsAmong R s (p.run s).1 (p.run s).2 :=
  p.endsAmong_run_of (fun _ => True) (fun s _ => unchanged s) (fun _ _ _ => trivial) trivial

/-- All requests are in order. The account is the state as the last request has left it, and before
the next one it can change as the relation says. -/
def Protocol.among (R : State → State → Prop) : Protocol State where
  Admits _ _ := True
  Leads s r answer s' := ∃ s₁, R s s₁ ∧ answer = (s₁.perform r).1 ∧ s' = (s₁.perform r).2

/-- The result of a program and the state that its last request has left, before the last change. -/
theorem Program.Follows.of_endsAmong {p : Program α} {post : α → State → Prop} {a : α}
    (h : p.Follows (.among R) s post) (ends : p.EndsAmong R s a s') :
    ∃ s₁, post a s₁ ∧ R s₁ s' := by
  induction ends with
  | done a change => exact ⟨_, (follows_pure a).mp h, change⟩
  | ask change _ ih => exact ih ((follows_ask.mp h).2 _ _ ⟨_, change, rfl, rfl⟩)

/-- What a program does among changes of some kind, it does among fewer of them. -/
theorem Program.Follows.among_fewer {R' : State → State → Prop} {p : Program α}
    {post : α → State → Prop} (h : p.Follows (.among R) s post)
    (fewer : ∀ s s', R' s s' → R s s') : p.Follows (.among R') s post := by
  induction p generalizing s with
  | done a => exact (follows_pure a).mpr ((follows_pure a).mp h)
  | ask r next ih =>
    refine follows_ask.mpr ⟨trivial, ?_⟩
    rintro _ _ ⟨s₁, change, rfl, rfl⟩
    exact ih _ ((follows_ask.mp h).2 _ _ ⟨s₁, fewer _ _ change, rfl, rfl⟩)

/-- As before, but only those requests are in order that are admitted as the last request has left
the state. -/
def Protocol.guarded (R : State → State → Prop) (K : State → Request → Prop) : Protocol State where
  Admits := K
  Leads := (Protocol.among R).Leads

section Guarded

variable {K : State → Request → Prop} {p : Program α} {post : α → State → Prop}

theorem Program.Follows.of_guarded (h : p.Follows (.guarded R K) s post) :
    p.Follows (.among R) s post := by
  induction p generalizing s with
  | done a => exact (follows_pure a).mpr ((follows_pure a).mp h)
  | ask r next ih =>
    exact follows_ask.mpr ⟨trivial, fun answer x leads => ih answer ((follows_ask.mp h).2 _ _ leads)⟩

/-- What changes and admitted requests preserve holds whenever such a program goes on. -/
theorem Program.Follows.passes (inv : State → Prop)
    (stays : ∀ s s₁, inv s → R s s₁ → inv s₁)
    (step : ∀ r s s₁, K s r → inv s → R s s₁ → inv (s₁.perform r).2)
    (h : p.Follows (.guarded R K) s post) (start : inv s) (passes : p.Passes R s s') : inv s' := by
  induction passes with
  | now p change => exact stays _ _ start change
  | later change _ ih =>
    obtain ⟨admitted, rest⟩ := follows_ask.mp h
    exact ih (rest _ _ ⟨_, change, rfl, rfl⟩) (step _ _ _ admitted start change)

end Guarded

theorem Program.follows_among_call {post : r.Answer → State → Prop}
    (h : ∀ s₁, R s s₁ → post (s₁.perform r).1 (s₁.perform r).2) :
    (call r).Follows (.among R) s post := by
  refine follows_call.mpr ⟨trivial, ?_⟩
  rintro _ _ ⟨s₁, change, rfl, rfl⟩
  exact h s₁ change

/-- A program goes on with the answer to a request and the state after it. -/
theorem Program.follows_among_bind {f : r.Answer → Program β} {post : β → State → Prop}
    (h : ∀ s₁, R s s₁ → (f (s₁.perform r).1).Follows (.among R) (s₁.perform r).2 post) :
    (call r >>= f).Follows (.among R) s post :=
  follows_bind.mpr (follows_among_call h)

/-- What each request of a program preserves after a change, the program preserves. -/
theorem Program.Asks.follows_among {p : Program α} {K : Request → Prop} (asks : p.Asks K)
    (inv : State → Prop)
    (step : ∀ r s s₁, K r → inv s → R s s₁ → inv (s₁.perform r).2) (h : inv s) :
    p.Follows (.among R) s fun _ => inv := by
  refine asks.follows inv (fun r s made before => ⟨trivial, ?_⟩) h
  rintro _ _ ⟨s₁, change, -, rfl⟩
  exact step r s s₁ made before change

namespace Action

variable {good : β → State → Prop} {bad : State → Prop}

/-- Any program succeeds or fails. -/
theorem follows_among_trivially (a : Action α) :
    a.Follows (.among R) s (fun _ _ => True) fun _ => True := by
  refine (follows_check (p := a.outcome)).mpr (((Program.asks_any a.outcome).follows_among
    (fun _ => True) (fun _ _ _ _ _ _ => trivial) trivial).mono ?_)
  rintro (cause | v) _ - <;> trivial

/-- What each request of a program preserves after a change, the program preserves. -/
theorem Asks.follows_among {a : Action α} {K : Request → Prop} (asks : a.Asks K)
    (inv : State → Prop)
    (step : ∀ r s s₁, K r → inv s → R s s₁ → inv (s₁.perform r).2) (h : inv s) :
    a.Follows (.among R) s (fun _ => inv) inv := by
  refine asks.follows inv (fun r s made before => ⟨trivial, ?_⟩) h
  rintro _ _ ⟨s₁, change, -, rfl⟩
  exact step r s s₁ made before change

theorem follows_among_call {good : r.Answer → State → Prop}
    (h : ∀ s₁, R s s₁ → good (s₁.perform r).1 (s₁.perform r).2) :
    (call r).Follows (.among R) s good bad :=
  follows_of.mpr (Program.follows_among_call h)

/-- A program goes on with the answer to a request and the state after it. -/
theorem follows_among_bind {f : r.Answer → Action β}
    (h : ∀ s₁, R s s₁ → (f (s₁.perform r).1).Follows (.among R) (s₁.perform r).2 good bad) :
    (call r >>= f).Follows (.among R) s good bad :=
  follows_bind.mpr (follows_among_call h)

/-- The outcome of a program that goes on with the answer to a request. -/
theorem outcome_follows_among_bind {f : r.Answer → Action β}
    {post : Except Failure β → State → Prop} (h : ∀ s₁, R s s₁ →
      (f (s₁.perform r).1).outcome.Follows (.among R) (s₁.perform r).2 post) :
    (call r >>= f).outcome.Follows (.among R) s post :=
  outcome_follows_of_bind.mpr (Program.follows_among_call h)

end Action

end Cohort
