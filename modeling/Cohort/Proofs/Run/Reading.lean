import Cohort.Proofs.Program.Among
import Cohort.Proofs.Run.Frame

/-!
# Computing rows while other things change

While a run goes on, the engine can begin to fail and stop to fail, the catalogue can refuse to
write, and locks, jobs and times can change. As long as the rows and the data of the engine stay the
same, a computation that succeeds has the rows that its source stands for.

## Main definitions

* `Disturbs` — what can change while a run goes on
* `SegmentSource.CanYield` — the rows can come out of a computation

## Main results

* `computeBase_reads`, `computeComposite_reads_among` — what comes out of a computation
-/

namespace Cohort

/-- What can change while a run goes on: everything but the rows, the data of the engine and the
events. Queries find no data only if `silent` allows for it. -/
structure Disturbs (silent : Bool) (s s' : State) : Prop where
  still : Still s s'
  silent : s'.engine.failQueries = true → silent = true

/-- The rows can come out of a computation. They are what the source stands for, but a query by
itself that finds no data has no rows. -/
def SegmentSource.CanYield (silent : Bool) (ts : List Transaction) (operands : RuleId → Dataset)
    (source : SegmentSource) (rows : Dataset) : Prop :=
  rows = source.rows ts operands ∨ silent = true ∧ (∃ q, source = .base q) ∧ rows = []

variable {silent : Bool} {s s' x x' : State} {id : RuleId}

/-- A program that runs alone is not disturbed. -/
theorem Disturbs.of_run {α : Type} (p : Program α) (s : State) :
    p.EndsAmong (Disturbs s.engine.failQueries) s (p.run s).1 (p.run s).2 :=
  p.endsAmong_run_of (fun s' => s'.engine.failQueries = s.engine.failQueries)
    (fun s' same => ⟨.refl s', fun fails => same ▸ fails⟩)
    (fun s' r same => (s'.perform_switches r).1.trans same) rfl

open Cohort.Action

section Still

variable {α β : Type} {r : Request}

/-- A request that changes no row and no data can have any answer. -/
theorem follows_still_bind (quiet : r.isStill = true) {f : r.Answer → Action β}
    {good : β → State → Prop} {bad : State → Prop}
    (h : ∀ answer x', Still x x' → (f answer).Follows (.among (Disturbs silent)) x' good bad) :
    (Action.call r >>= f).Follows (.among (Disturbs silent)) x good bad :=
  follows_among_bind fun x₁ change => h _ _ (change.still.trans (x₁.perform_still quiet))

/-- The same, after others of the kind. -/
theorem Program.follows_still_bind (quiet : r.isStill = true) {f : r.Answer → Program β}
    {post : β → State → Prop} (before : Still s x)
    (h : ∀ answer x', Still s x' → (f answer).Follows (.among (Disturbs silent)) x' post) :
    (Program.call r >>= f).Follows (.among (Disturbs silent)) x post :=
  Program.follows_among_bind fun x₁ change =>
    h _ _ (before.trans (change.still.trans (x₁.perform_still quiet)))

/-- The row that is read is the one that is there. -/
theorem follows_getRow_bind {f : Option Entry → Action β} {good : β → State → Prop}
    {bad : State → Prop}
    (h : ∀ x', Still x x' →
      (f (x.catalog.get? id)).Follows (.among (Disturbs silent)) x' good bad) :
    (Action.call (.getRow id) >>= f).Follows (.among (Disturbs silent)) x good bad := by
  refine follows_among_bind fun x₁ change => ?_
  have row : (x₁.perform (.getRow id)).1 = x.catalog.get? id := by
    rw [← change.still.catalog]
    rfl
  rw [row]
  exact h x₁ change.still

end Still

/-! ## Queries -/

/-- A query has the rows that it selects, or it finds no data, or the process ends. -/
theorem runQuery_reads (q : Query) :
    (runQuery q).Follows (.among (Disturbs silent)) x fun result x' => Still x x' ∧
      (result = .ok (q.evaluate x.engine.transactions) ∨
        silent = true ∧ result = .error .noResult ∨ result = .error (.processExited 1)) := by
  refine Program.follows_among_bind fun x₁ change₁ => ?_
  refine Program.follows_among_call fun x₂ change₂ => ?_
  have still : Still x x₂ :=
    (change₁.still.trans (x₁.perform_still (r := .beginQuery) rfl)).trans change₂.still
  refine ⟨still.trans (x₂.perform_still rfl), ?_⟩
  change x₂.engine.answer q = _ ∨ _ ∧ x₂.engine.answer q = _ ∨ x₂.engine.answer q = _
  unfold Engine.answer
  rw [still.transactions]
  split
  · exact .inr (.inr rfl)
  · split
    · next fails => exact .inr (.inl ⟨change₂.silent fails, rfl⟩)
    · exact .inl rfl

theorem orFail_reads {α : Type} {p : Program (Except EngineFailure α)} {good : α → State → Prop}
    (h : p.Follows (.among (Disturbs silent)) x fun result x' => Still x x' ∧
      ∀ v, result = .ok v → good v x') :
    (orFail id p).Follows (.among (Disturbs silent)) x (fun v x' => Still x x' ∧ good v x')
      fun x' => Still x x' := by
  refine follows_check.mpr (h.bind ?_)
  rintro (cause | v) x' ⟨still, known⟩
  · exact (Program.follows_pure _).mpr still
  · exact (Program.follows_pure _).mpr ⟨still, known v rfl⟩

theorem computeBase_reads (q : Query) :
    (computeBase id q).Follows (.among (Disturbs silent)) x
      (fun rows x' => Still x x' ∧
        (SegmentSource.base q).CanYield silent x.engine.transactions x.tableOf rows)
      fun x' => Still x x' := by
  unfold computeBase
  refine follows_of_bind.mpr ((runQuery_reads q).mono ?_)
  rintro result x' ⟨still, rfl | ⟨allowed, rfl⟩ | rfl⟩
  · exact (follows_pure _).mpr ⟨still, .inl rfl⟩
  · exact (follows_pure _).mpr ⟨still, .inr ⟨allowed, ⟨q, rfl⟩, rfl⟩⟩
  · exact (follows_throw _).mpr still

/-! ## Operands -/

theorem loadDependency_reads_among (dependency : RuleId) :
    (loadDependency id dependency).Follows (.among (Disturbs silent)) x
      (fun loaded x' => Still x x' ∧ loaded.1 = x.tableOf dependency) fun x' => Still x x' := by
  unfold loadDependency
  refine follows_getRow_bind fun x₁ still₁ => ?_
  cases found : x.catalog.get? dependency with
  | none => exact (follows_throw _).mpr still₁
  | some e =>
    dsimp only
    split
    · exact (follows_throw _).mpr still₁
    refine follows_among_bind fun x₂ change₂ => ?_
    have still₂ : Still x (x₂.perform (.readTable e.segment.table)).2 :=
      still₁.trans change₂.still
    have read : (x₂.perform (.readTable e.segment.table)).1 =
        x.engine.readTable e.segment.table := by
      simp only [State.perform, Engine.readTable, (still₁.trans change₂.still).table?]
    rw [read, Engine.readTable]
    cases rows : x.engine.table? e.segment.table with
    | none => exact (follows_throw _).mpr still₂
    | some rows' =>
      refine (follows_pure _).mpr ⟨still₂, ?_⟩
      simp [State.tableOf, found, rows]

theorem loadDependencies_reads_among (dependencies : List RuleId) :
    (loadDependencies id dependencies).Follows (.among (Disturbs silent)) x
      (fun loaded x' => Still x x' ∧ loaded.1 = dependencies.map x.tableOf)
      fun x' => Still x x' := by
  unfold loadDependencies
  -- The tables loaded so far are those of the dependencies before the ones to come.
  refine Follows.bind (follows_mapM (fun loaded rest x' => Still x x' ∧
    ∃ seen, dependencies = seen ++ rest ∧ loaded.map (·.1) = seen.map x.tableOf) ?_ dependencies []
    ⟨.refl x, [], rfl, rfl⟩) ?_
  · rintro loaded d rest x₁ ⟨still₁, seen, hseen, hloaded⟩
    refine (loadDependency_reads_among d).mono ?_ fun _ still => still₁.trans still
    rintro more x₂ ⟨still₂, hmore⟩
    rw [still₁.tableOf] at hmore
    refine ⟨still₁.trans still₂, seen ++ [d], by simp [hseen], ?_⟩
    rw [List.map_append, List.map_append, hloaded, List.map_singleton, List.map_singleton, hmore]
  · rintro loaded x₁ ⟨still₁, seen, hseen, hloaded⟩
    rw [List.append_nil] at hseen
    rw [List.nil_append] at hloaded
    subst hseen
    split
    · exact (follows_throw _).mpr still₁
    · exact (follows_pure _).mpr ⟨still₁, hloaded⟩

/-- A combination that succeeds has the rows that it stands for over the tables that are there. -/
theorem computeComposite_reads_among (dependencies : List RuleId) (operation : SetOperation)
    (residual : Option Query) :
    (computeComposite id dependencies operation residual).Follows (.among (Disturbs silent)) x
      (fun computed x' => Still x x' ∧ computed.1 =
        (SegmentSource.composite dependencies operation residual).rows x.engine.transactions
          x.tableOf)
      fun x' => Still x x' := by
  unfold computeComposite
  refine (loadDependencies_reads_among dependencies).bind ?_
  rintro ⟨operands, oldest⟩ x₁ ⟨still₁, rfl⟩
  dsimp only
  have combines : (orFail id (pure
      (Dataset.combine operation (dependencies.map x.tableOf)))).Follows
      (.among (Disturbs silent)) x₁ (fun combined x' => Still x₁ x' ∧
        Dataset.combine operation (dependencies.map x.tableOf) = .ok combined)
      fun x' => Still x₁ x' :=
    orFail_reads ((Program.follows_pure _).mpr ⟨.refl x₁, fun _ same => same⟩)
  refine follows_bind.mpr (combines.mono ?_ fun x₂ still₂ => still₁.trans still₂)
  rintro combined x₂ ⟨still₂, hcombined⟩
  have still := still₁.trans still₂
  have rows : (SegmentSource.composite dependencies operation residual).rows x.engine.transactions
      x.tableOf = narrowed x.engine.transactions residual combined := by
    rw [SegmentSource.rows, hcombined]
  rw [rows]
  unfold narrowed
  -- What is left is to narrow the combination, if there is a test to make.
  cases residual.filter fun q => !q.isUnfiltered with
  | none => exact (follows_pure _).mpr ⟨still, rfl⟩
  | some q =>
    have narrows : (orFail id (runQuery q)).Follows (.among (Disturbs silent)) x₂
        (fun rows x' => Still x₂ x' ∧ rows = q.evaluate x.engine.transactions)
        fun x' => Still x₂ x' := by
      refine orFail_reads ((runQuery_reads q).mono ?_)
      rintro result x' ⟨still', rfl | ⟨-, rfl⟩ | rfl⟩
      · rw [still.transactions]
        exact ⟨still', fun _ same => (Except.ok.inj same).symm⟩
      · exact ⟨still', fun _ same => by cases same⟩
      · exact ⟨still', fun _ same => by cases same⟩
    refine follows_bind.mpr (narrows.mono ?_ fun x₃ still₃ => still.trans still₃)
    rintro rows x₃ ⟨still₃, rfl⟩
    exact (follows_pure _).mpr ⟨still.trans still₃, rfl⟩

end Cohort
