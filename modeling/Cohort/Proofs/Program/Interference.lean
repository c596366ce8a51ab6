import Cohort.Proofs.Program.Requests
import Cohort.Proofs.Program.Yields

/-!
# Programs in a changing world

While a program goes on, transactions come in, failures begin and end, and time passes. None of
this waits for the end of a program. Only what the system stores is its own: the catalogue and the
tables change by requests and by nothing else. This module states what a program does to them,
whatever else changes before, between and after its requests.

## Main definitions

* `Stored` — what only requests change
* `Program.ComesTo` — a program ends with a result and a state, while the rest of the state changes
* `Program.Ensures`, `Action.Ensures` — however it ends, a program leaves stored what is promised

## Main results

* `Program.Ensures.of_comesTo` — the promise is kept
* `Program.ensures_bind`, `Action.ensures_bind` — programs one after the other
* `Program.Asks.ensures` — what every request of a program preserves, the program preserves
-/

namespace Cohort

/-- What only requests change: the catalogue with what it is told to refuse, and the tables. -/
structure Stored where
  catalog : Catalog
  faults : Faults
  tables : List (String × Dataset)

/-- What is stored in a state. -/
def State.stored (s : State) : Stored := ⟨s.catalog, s.faults, s.engine.tables⟩

variable {α β : Type} {s s' : State} {k : Stored} {r : Request}

/-- A request that leaves the data alone leaves stored what is stored. -/
theorem State.perform_stored (kept : r.leavesData = true) (s : State) :
    (s.perform r).2.stored = s.stored := by
  have faults : (s.perform r).2.faults = s.faults := by
    cases r <;> simp [Request.leavesData, Request.leavesCatalog] at kept <;> rfl
  unfold stored
  rw [perform_catalog (Request.leavesCatalog_of_leavesData kept), faults,
    perform_tables (Request.leavesTables_of_leavesData kept)]

namespace Program

/-- The program ends with a result and a state. Before each request, and at the end, everything can
change that is not stored. -/
inductive ComesTo {α : Type} : Program α → State → α → State → Prop
  | done (a : α) {s s' : State} (same : s'.stored = s.stored) : ComesTo (.done a) s a s'
  | ask {r : Request} {next : r.Answer → Program α} {s s₁ s' : State} {a : α}
      (same : s₁.stored = s.stored)
      (rest : ComesTo (next (s₁.perform r).1) (s₁.perform r).2 a s') : ComesTo (.ask r next) s a s'

/-- A program that runs alone is one for which nothing else changes. -/
theorem comesTo_run (p : Program α) (s : State) : p.ComesTo s (p.run s).1 (p.run s).2 := by
  induction p generalizing s with
  | done a => exact .done a rfl
  | ask r next ih => exact .ask rfl (ih _ _)

/-- However the program ends, the result and what is stored then satisfy `post`. -/
def Ensures : Program α → Stored → (α → Stored → Prop) → Prop
  | .done a, k, post => post a k
  | .ask r next, k, post => ∀ s : State, s.stored = k →
      (next (s.perform r).1).Ensures (s.perform r).2.stored post

variable {post post' : α → Stored → Prop}

theorem Ensures.of_comesTo {p : Program α} {a : α} (h : p.Ensures s.stored post)
    (came : p.ComesTo s a s') : post a s'.stored := by
  induction came with
  | done a same =>
    rw [same]
    exact h
  | ask same _ ih => exact ih (h _ same)

theorem ensures_pure (a : α) : (pure a : Program α).Ensures k post ↔ post a k := Iff.rfl

theorem ensures_call {post : r.Answer → Stored → Prop} : (call r).Ensures k post ↔
    ∀ s : State, s.stored = k → post (s.perform r).1 (s.perform r).2.stored := Iff.rfl

theorem ensures_bind {p : Program α} {f : α → Program β} {post : β → Stored → Prop} :
    (p >>= f).Ensures k post ↔ p.Ensures k fun a k' => (f a).Ensures k' post := by
  induction p generalizing k with
  | done a => exact Iff.rfl
  | ask r next ih => exact forall₂_congr fun s _ => ih _

theorem Ensures.mono {p : Program α} (h : p.Ensures k post)
    (weaker : ∀ a k', post a k' → post' a k') : p.Ensures k post' := by
  induction p generalizing k with
  | done a => exact weaker a k h
  | ask r next ih => exact fun s hs => ih _ (h s hs)

/-- A request that leaves the data alone can have any answer. -/
theorem ensures_kept (kept : r.leavesData = true) {post : r.Answer → Stored → Prop}
    (h : ∀ answer, post answer k) : (call r).Ensures k post := by
  rintro s rfl
  change post _ (s.perform r).2.stored
  rw [s.perform_stored kept]
  exact h _

/-- Such a request can also come first. -/
theorem ensures_bind_kept (kept : r.leavesData = true) {f : r.Answer → Program β}
    {post : β → Stored → Prop} (h : ∀ answer, (f answer).Ensures k post) :
    (call r >>= f).Ensures k post :=
  ensures_bind.mpr (ensures_kept kept h)

/-- What every request of a program preserves, the program preserves. -/
theorem Asks.ensures {p : Program α} {P : Request → Prop} {inv : Stored → Prop} (asks : p.Asks P)
    (step : ∀ r (s : State), P r → inv s.stored → inv (s.perform r).2.stored) (h : inv k) :
    p.Ensures k fun _ => inv := by
  induction p generalizing k with
  | done a => exact h
  | ask r next ih =>
    obtain ⟨made, rest⟩ := asks_ask.mp asks
    rintro s rfl
    exact ih _ (rest _) (step r s made h)

/-- A program that asks for nothing else leaves stored what is stored. -/
theorem Asks.ensures_kept {p : Program α} (asks : p.Asks fun r => r.leavesData = true) :
    p.Ensures k fun _ k' => k' = k :=
  asks.ensures (fun _ s kept same => (s.perform_stored kept).trans same) rfl

end Program

namespace Action

/-- However the program ends, it either succeeds with a value, so that `good` holds of it and of
what is stored, or it fails and `bad` holds of what is stored. -/
def Ensures (a : Action α) (k : Stored) (good : α → Stored → Prop) (bad : Stored → Prop) : Prop :=
  a.outcome.Ensures k fun result k' =>
    match result with
    | .ok v => good v k'
    | .error _ => bad k'

variable {good good' : α → Stored → Prop} {bad bad' : Stored → Prop}

theorem ensures_pure (v : α) : (pure v : Action α).Ensures k good bad ↔ good v k := Iff.rfl

theorem ensures_throw (e : Failure) : (throw e : Action α).Ensures k good bad ↔ bad k := Iff.rfl

theorem ensures_bind {a : Action α} {f : α → Action β} {good : β → Stored → Prop} :
    (a >>= f).Ensures k good bad ↔ a.Ensures k (fun v k' => (f v).Ensures k' good bad) bad := by
  unfold Ensures
  rw [outcome_bind, Program.ensures_bind]
  refine ⟨fun h => h.mono ?_, fun h => h.mono ?_⟩ <;>
  · rintro (e | v) k' h
    · exact h
    · exact h

theorem ensures_of {p : Program α} : (of p).Ensures k good bad ↔ p.Ensures k good :=
  Program.ensures_bind

theorem ensures_check {p : Program (Except Failure α)} :
    (check p).Ensures k good bad ↔ p.Ensures k fun result k' =>
      match result with
      | .ok v => good v k'
      | .error _ => bad k' := Iff.rfl

theorem ensures_call {good : r.Answer → Stored → Prop} : (call r).Ensures k good bad ↔
    ∀ s : State, s.stored = k → good (s.perform r).1 (s.perform r).2.stored :=
  ensures_of.trans Program.ensures_call

theorem ensures_kept (kept : r.leavesData = true) {good : r.Answer → Stored → Prop}
    (h : ∀ answer, good answer k) : (call r).Ensures k good bad :=
  ensures_of.mpr (Program.ensures_kept kept h)

theorem ensures_bind_kept (kept : r.leavesData = true) {f : r.Answer → Action β}
    {good : β → Stored → Prop} (h : ∀ answer, (f answer).Ensures k good bad) :
    (call r >>= f).Ensures k good bad :=
  ensures_bind.mpr (ensures_kept kept h)

/-- A row is read as it is stored. -/
theorem ensures_getRow {id : RuleId} {good : Option Entry → Stored → Prop}
    (h : good (k.catalog.get? id) k) : (call (.getRow id)).Ensures k good bad := by
  refine ensures_call.mpr fun s hs => ?_
  subst hs
  exact h

/-- The rows are listed as they are stored. -/
theorem ensures_listRows {good : List Entry → Stored → Prop} (h : good k.catalog.list k) :
    (call .listRows).Ensures k good bad := by
  refine ensures_call.mpr fun s hs => ?_
  subst hs
  exact h

theorem Ensures.mono {a : Action α} (h : a.Ensures k good bad)
    (weakerGood : ∀ v k', good v k' → good' v k') (weakerBad : ∀ k', bad k' → bad' k') :
    a.Ensures k good' bad' := by
  refine Program.Ensures.mono h ?_
  rintro (e | v) k' h
  · exact weakerBad k' h
  · exact weakerGood v k' h

/-- A program goes on where the one before it succeeds. -/
theorem Ensures.bind {a : Action α} {f : α → Action β} {good' : β → Stored → Prop}
    (h : a.Ensures k good bad) (next : ∀ v k', good v k' → (f v).Ensures k' good' bad) :
    (a >>= f).Ensures k good' bad :=
  ensures_bind.mpr (h.mono next fun _ failed => failed)

/-- The outcome of a program as a value, with success and failure apart. -/
theorem Ensures.outcome {a : Action α} {post : Except Failure α → Stored → Prop}
    (h : a.Ensures k good bad) (ok : ∀ v k', good v k' → post (.ok v) k')
    (error : ∀ e k', bad k' → post (.error e) k') : a.outcome.Ensures k post := by
  refine Program.Ensures.mono h ?_
  rintro (e | v) k' h
  · exact error e k' h
  · exact ok v k' h

/-- What every request of a program preserves, the program preserves. -/
theorem Asks.ensures {a : Action α} {P : Request → Prop} {inv : Stored → Prop} (asks : a.Asks P)
    (step : ∀ r (s : State), P r → inv s.stored → inv (s.perform r).2.stored) (h : inv k) :
    a.Ensures k (fun _ => inv) inv := by
  refine (Program.Asks.ensures asks.outcome step h).mono ?_
  rintro (e | v) k' h
  · exact h
  · exact h

/-- A program that asks for nothing else leaves stored what is stored. -/
theorem Asks.ensures_kept {a : Action α} (asks : a.Asks fun r => r.leavesData = true) :
    a.Ensures k (fun _ k' => k' = k) fun k' => k' = k :=
  asks.ensures (fun _ s kept same => (s.perform_stored kept).trans same) rfl

/-- Repeated steps preserve what each step preserves. -/
theorem ensures_foldlM {f : β → α → Action β} {inv : Stored → Prop}
    (step : ∀ b a k, inv k → (f b a).Ensures k (fun _ => inv) inv) :
    ∀ (l : List α) (b : β) (k : Stored), inv k → (l.foldlM f b).Ensures k (fun _ => inv) inv := by
  intro l
  induction l with
  | nil => exact fun b k h => h
  | cons a rest ih =>
    intro b k h
    rw [List.foldlM_cons]
    exact (step b a k h).bind fun b' k' h' => ih b' k' h'

/-- A program for each element of a list: what holds of each result holds of all. -/
theorem ensures_mapM {f : α → Action β} {inv : Stored → Prop} {P : β → Prop}
    (step : ∀ a k, inv k → (f a).Ensures k (fun b k' => P b ∧ inv k') inv) :
    ∀ (l : List α) (k : Stored), inv k →
      (l.mapM f).Ensures k (fun bs k' => (∀ b ∈ bs, P b) ∧ inv k') inv := by
  intro l
  induction l with
  | nil =>
    intro k h
    rw [List.mapM_nil]
    exact (ensures_pure _).mpr ⟨fun _ none => absurd none List.not_mem_nil, h⟩
  | cons a rest ih =>
    intro k h
    rw [List.mapM_cons]
    refine (step a k h).bind fun b k₁ hb => ?_
    refine (ih k₁ hb.2).bind fun bs k₂ hbs => ?_
    exact (ensures_pure _).mpr ⟨List.forall_mem_cons.mpr ⟨hb.1, hbs.1⟩, hbs.2⟩

end Action

-- A program is taken apart by the lemmas above, and never run in search of the shape of a goal.
attribute [irreducible] Program.Ensures Action.Ensures

end Cohort
