import Cohort.Proofs.Lineage.Denotation
import Cohort.Proofs.Program.Yields
import Cohort.Proofs.Run.Definitions

/-!
# Fresh tables

A table is fresh if its row says that it was written and it holds the denotation of its rule.
While nothing fails, the steps of a run leave every rule alone or make it fresh, so that what is
fresh stays so.

## Main definitions

* `Steady` — the state of a system whose definitions and transactions stay the same and in which
  nothing fails
* `Fresh` — the table of a rule is written and holds its denotation
* `Advances` — every rule is fresh afterwards or left alone

## Main results

* `State.perform_advances` — requests that leave the data alone leave what is fresh so
* `loadDependencies_yields`, `computeComposite_yields` — fresh operands are combined as denoted
-/

namespace Cohort

/-- The engine answers all queries and writes all tables. -/
structure Engine.Healthy (e : Engine) : Prop where
  answers : e.failQueries = false
  lives : e.crashQueries = false
  writes : e.failingWrites = []

theorem Engine.Healthy.answer {e : Engine} (h : e.Healthy) (q : Query) :
    e.answer q = .ok (q.evaluate e.transactions) := by
  simp [Engine.answer, h.answers, h.lives]

/-- The rows are those of the catalogue `c` up to what runs leave behind, the transactions are
`ts`, and nothing fails. -/
structure Steady (c : Catalog) (ts : List Transaction) (s : State) : Prop where
  indexed : s.catalog.Indexed
  same : c.SameDefinitions s.catalog
  transactions : s.engine.transactions = ts
  healthy : s.engine.Healthy
  faults : s.faults = {}

/-- The row of the rule says that its table was written, and the table holds its denotation. -/
def Fresh (c : Catalog) (ts : List Transaction) (s : State) (id : RuleId) : Prop :=
  ∃ e, s.catalog.get? id = some e ∧ e.segment.isMaterialized = true ∧
    s.engine.table? e.segment.table = some (meaning c.list ts id)

/-- Neither the row of the rule nor its table has changed. -/
def Untouched (s s' : State) (id : RuleId) : Prop :=
  s'.catalog.get? id = s.catalog.get? id ∧
    ∀ e, s.catalog.get? id = some e →
      s'.engine.table? e.segment.table = s.engine.table? e.segment.table

/-- Nothing fails still, and every rule is fresh or untouched. -/
structure Advances (c : Catalog) (ts : List Transaction) (s s' : State) : Prop where
  steady : Steady c ts s'
  each : ∀ id, Fresh c ts s' id ∨ Untouched s s' id

variable {c : Catalog} {ts : List Transaction} {s s' s'' : State} {id : RuleId}

theorem Untouched.fresh (h : Untouched s s' id) (fresh : Fresh c ts s id) : Fresh c ts s' id := by
  obtain ⟨e, found, materialized, table⟩ := fresh
  exact ⟨e, h.1.trans found, materialized, (h.2 e found).trans table⟩

theorem Untouched.trans (h : Untouched s s' id) (h' : Untouched s' s'' id) :
    Untouched s s'' id :=
  ⟨h'.1.trans h.1, fun e he => (h'.2 e (h.1.trans he)).trans (h.2 e he)⟩

namespace Advances

theorem refl (h : Steady c ts s) : Advances c ts s s := ⟨h, fun _ => .inr ⟨rfl, fun _ _ => rfl⟩⟩

theorem fresh (h : Advances c ts s s') (fresh : Fresh c ts s id) : Fresh c ts s' id :=
  (h.each id).elim (fun now => now) fun kept => kept.fresh fresh

theorem trans (h : Advances c ts s s') (h' : Advances c ts s' s'') : Advances c ts s s'' := by
  refine ⟨h'.steady, fun id => ?_⟩
  rcases h'.each id with now | kept'
  · exact .inl now
  · rcases h.each id with now | kept
    · exact .inl (kept'.fresh now)
    · exact .inr (kept.trans kept')

/-- A step that changes neither the rows nor the data of the engine. -/
theorem of_same (h : Steady c ts s) (catalog : s'.catalog = s.catalog)
    (tables : s'.engine.tables = s.engine.tables)
    (transactions : s'.engine.transactions = s.engine.transactions)
    (healthy : s.engine.Healthy → s'.engine.Healthy) (faults : s'.faults = s.faults) :
    Advances c ts s s' where
  steady :=
    { indexed := catalog ▸ h.indexed
      same := catalog ▸ h.same
      transactions := transactions.trans h.transactions
      healthy := healthy h.healthy
      faults := faults.trans h.faults }
  each id := .inr ⟨by rw [catalog], fun e _ => by rw [Engine.table?, Engine.table?, tables]⟩

end Advances

/-! ## Requests that leave the data alone -/

theorem State.perform_advances {r : Request} (h : r.leavesData = true) (steady : Steady c ts s) :
    Advances c ts s (s.perform r).2 := by
  have same : ∀ s' : State, s'.catalog = s.catalog → s'.engine = s.engine →
      s'.faults = s.faults → Advances c ts s s' := by
    intro s' hcatalog hengine hfaults
    refine .of_same steady hcatalog ?_ ?_ ?_ hfaults
    · rw [hengine]
    · rw [hengine]
    · rw [hengine]
      exact fun h => h
  cases r <;> simp [Request.leavesData, Request.leavesCatalog] at h <;>
    first
    | exact same _ rfl rfl rfl
    | exact .of_same steady rfl rfl rfl (fun h => ⟨h.answers, h.lives, h.writes⟩) rfl

/-! ## Computing the rows of a segment -/

open Cohort.Action

theorem runQuery_yields (q : Query) (steady : Steady c ts s) :
    (runQuery q).Yields s fun result s' =>
      Advances c ts s s' ∧ result = .ok (q.evaluate ts) := by
  unfold runQuery
  rw [Program.yields_bind, Program.yields_call, Program.yields_call]
  have began : Advances c ts s (s.perform .beginQuery).2 := State.perform_advances rfl steady
  have ended : Advances c ts s ((s.perform .beginQuery).2.perform (.endQuery q)).2 :=
    began.trans (State.perform_advances rfl began.steady)
  refine ⟨ended, ?_⟩
  rw [← began.steady.transactions]
  exact began.steady.healthy.answer q

theorem orFail_yields {α : Type} {p : Program (Except EngineFailure α)}
    {good : α → State → Prop} (h : p.Yields s fun result s' => ∃ v, result = .ok v ∧ good v s') :
    (orFail id p).Yields s good fun _ _ => False := by
  unfold orFail
  rw [yields_check, Program.yields_bind]
  refine h.mono ?_
  rintro result s' ⟨v, rfl, hv⟩
  exact (Program.yields_pure _).mpr hv

theorem computeBase_yields (q : Query) (steady : Steady c ts s) :
    (computeBase id q).Yields s
      (fun rows s' => Advances c ts s s' ∧ rows = Dataset.dropNull (q.evaluate ts))
      fun _ _ => False := by
  unfold computeBase
  rw [yields_bind, yields_of]
  refine (runQuery_yields q steady).mono ?_
  rintro result s' ⟨advances, rfl⟩
  exact (yields_pure _).mpr ⟨advances, rfl⟩

theorem loadDependency_yields {dependency : RuleId} (fresh : Fresh c ts s dependency) :
    (loadDependency id dependency).Yields s
      (fun loaded s' => s' = s ∧ loaded.1 = meaning c.list ts dependency)
      fun _ _ => False := by
  obtain ⟨e, found, materialized, table⟩ := fresh
  unfold loadDependency
  dsimp only
  rw [yields_bind, yields_call]
  have row : (s.perform (.getRow dependency)).1 = some e := found
  rw [row]
  dsimp only
  split
  -- The row of a fresh table says when it was written.
  · next never =>
    rw [Segment.isMaterialized] at materialized
    cases hd : e.segment.dataAsOf <;> simp_all
  · rw [yields_bind, yields_call]
    have read : ((s.perform (.getRow dependency)).2.perform (.readTable e.segment.table)).1 =
        .ok (meaning c.list ts dependency) := by
      simp only [State.perform, Engine.readTable, table]
    rw [read]
    exact (yields_pure _).mpr ⟨rfl, rfl⟩

theorem loadDependencies_yields {dependencies : List RuleId} (nonempty : dependencies ≠ [])
    (fresh : ∀ d ∈ dependencies, Fresh c ts s d) :
    (loadDependencies id dependencies).Yields s
      (fun loaded s' => s' = s ∧ loaded.1 = dependencies.map (meaning c.list ts))
      fun _ _ => False := by
  unfold loadDependencies
  rw [yields_bind]
  -- The tables loaded so far are those of the dependencies before the ones to come.
  refine (yields_mapM (fun loaded rest s' => s' = s ∧ ∃ seen, dependencies = seen ++ rest ∧
    loaded.map (·.1) = seen.map (meaning c.list ts)) ?_ dependencies [] s
    ⟨rfl, [], rfl, rfl⟩).mono ?_ fun _ _ never => never
  · rintro loaded d rest s' ⟨rfl, seen, hseen, hloaded⟩
    have hd : d ∈ dependencies := by simp [hseen]
    refine (loadDependency_yields (fresh d hd)).of_success ?_
    rintro more s'' ⟨rfl, hmore⟩
    refine ⟨rfl, seen ++ [d], by simp [hseen], ?_⟩
    rw [List.map_append, List.map_append, hloaded, List.map_singleton, List.map_singleton, hmore]
  · rintro loaded s' ⟨rfl, seen, hseen, hloaded⟩
    rw [List.append_nil] at hseen
    rw [List.nil_append] at hloaded
    subst hseen
    cases loaded with
    | nil => exact absurd (by simpa using hloaded.symm) nonempty
    | cons first rest => exact (yields_pure _).mpr ⟨rfl, hloaded⟩

/-- A set operation over at least one dataset has a result. -/
theorem Dataset.combine_isOk (operation : SetOperation) {operands : List Dataset}
    (nonempty : operands ≠ []) : ∃ combined, Dataset.combine operation operands = .ok combined := by
  match operands, nonempty with
  | [only], _ => exact ⟨_, rfl⟩
  | _ :: _ :: _, _ => exact ⟨_, rfl⟩

theorem computeComposite_yields {dependencies : List RuleId} (operation : SetOperation)
    (residual : Option Query) (steady : Steady c ts s) (nonempty : dependencies ≠ [])
    (fresh : ∀ d ∈ dependencies, Fresh c ts s d) :
    (computeComposite id dependencies operation residual).Yields s
      (fun computed s' => Advances c ts s s' ∧ computed.1 =
        (SegmentSource.composite dependencies operation residual).rows ts
          (meaning c.list ts))
      fun _ _ => False := by
  unfold computeComposite
  rw [yields_bind]
  refine (loadDependencies_yields nonempty fresh).of_success ?_
  rintro ⟨operands, oldest⟩ s' ⟨rfl, rfl⟩
  have operands_nonempty : dependencies.map (meaning c.list ts) ≠ [] := by simpa using nonempty
  obtain ⟨combined, hcombined⟩ := Dataset.combine_isOk operation operands_nonempty
  have rows : (SegmentSource.composite dependencies operation residual).rows ts
      (meaning c.list ts) = narrowed ts residual combined := by
    rw [SegmentSource.rows, hcombined]
  dsimp only
  rw [rows, hcombined, yields_bind]
  have combines : (orFail id (pure (.ok combined))).Yields s'
      (fun v s'' => v = combined ∧ s'' = s') fun _ _ => False :=
    orFail_yields ((Program.yields_pure _).mpr ⟨combined, rfl, rfl, rfl⟩)
  refine combines.of_success ?_
  rintro v s₁ ⟨rfl, rfl⟩
  -- What is left is to narrow the combination, if there is a test to make.
  unfold narrowed
  cases residual.filter fun q => !q.isUnfiltered with
  | none => exact (yields_pure _).mpr ⟨.refl steady, rfl⟩
  | some q =>
    have narrows : (orFail id (runQuery q)).Yields s₁
        (fun rows s'' => Advances c ts s₁ s'' ∧ rows = q.evaluate ts) fun _ _ => False := by
      refine orFail_yields ((runQuery_yields q steady).mono ?_)
      rintro result s₂ ⟨advances, rfl⟩
      exact ⟨_, rfl, advances, rfl⟩
    dsimp only
    rw [yields_bind]
    refine narrows.of_success ?_
    rintro rows s₂ ⟨advances, rfl⟩
    exact (yields_pure _).mpr ⟨advances, rfl⟩

end Cohort
