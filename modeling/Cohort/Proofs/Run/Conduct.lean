import Cohort.Proofs.Run.Events
import Cohort.Proofs.Run.Reading

/-!
# Operands on demand

A run has its operands refreshed by runs of their own, one after the other. The rules whose runs are
in progress and those that are refreshed already are not run again, and the first failure ends all
runs in progress. So each rule starts at most once, whatever the catalogue holds and whatever fails.
This module says what the operands of a rule come to, if this is said of the nested runs.

## Main definitions

* `Conducts` — what was told between two states, and that no other rule was touched
* `Refreshes` — what can be said besides after runs that have all succeeded
* `Proceeds`, `Completes` — runs have gone on between two states, and all have succeeded
* `NestedRun.Conducted` — every nested run goes as runs go

## Main results

* `Conducts.trans`, `Refreshes.trans` — runs one after the other
* `refreshDependencies_conducts` — the operands of a rule are looked after
-/

namespace Cohort

open Cohort.Action

variable {setup : Setup} {nested : NestedRun} {running refreshed refreshed' : List RuleId}
  {id p : RuleId} {c : Catalog} {silent onDemand : Bool} {s s' s'' x : State} {e : Entry}
  {told told' : List Event} {may may' : RuleId → Prop}

/-! ## Runs one after the other -/

/-- What was told between two states are the events of runs, each of a rule that may run and that
has not run before. Only the rules that have run were touched. -/
structure Conducts (may : RuleId → Prop) (s : State) (told : List Event) (s' : State) : Prop where
  log : s'.log = s.log ++ told
  orderly : Orderly may told
  keeps : Keeps (· ∈ startsOf told) s s'

namespace Conducts

theorem still (h : Still s s') : Conducts may s [] s' where
  log := by rw [h.log, List.append_nil]
  orderly := .nil
  keeps := h.keeps

theorem trans (h : Conducts may s told s') (h' : Conducts may' s' told' s'')
    (apart : ∀ id, may' id → may id ∧ id ∉ startsOf told) : Conducts may s (told ++ told') s'' where
  log := by rw [h'.log, h.log, List.append_assoc]
  orderly := h.orderly.append (h'.orderly.mono fun id hid => (apart id hid).1)
    fun id hid => (apart id (h'.orderly.allowed id hid)).2
  keeps := by
    refine (h.keeps.mono fun id hid => ?_).trans (h'.keeps.mono fun id hid => ?_) <;>
    · rw [startsOf_append, List.mem_append]
      tauto

theorem mono (h : Conducts may s told s') (weaker : ∀ id, may id → may' id) :
    Conducts may' s told s' :=
  { h with orderly := h.orderly.mono weaker }

/-- Nothing happens before the runs. -/
theorem after_still (h : Conducts may s' told s'') (before : Still s s') :
    Conducts may s told s'' where
  log := by rw [h.log, before.log]
  orderly := h.orderly
  keeps := before.keeps.trans h.keeps

/-- Nothing happens after the runs. -/
theorem then_still (h : Conducts may s told s') (after : Still s' s'') :
    Conducts may s told s'' where
  log := by rw [after.log, h.log]
  orderly := h.orderly
  keeps := h.keeps.trans after.keeps

end Conducts

/-- The table of the rule was never written. -/
def Catalog.Unwritten (c : Catalog) (id : RuleId) : Prop :=
  ∃ e, c.get? id = some e ∧ e.segment.isMaterialized = false

/-- Between two catalogues, runs have gone on of which none has failed. Each has written down one
refresh, and its rule counts as refreshed now. On demand, no table that one of them has read was
left unwritten. -/
structure Refreshes (onDemand : Bool) (depends : RuleId → RuleId → Prop) (refreshed : List RuleId)
    (c : Catalog) (told : List Event) (refreshed' : List RuleId) (c' : Catalog) : Prop where
  succeeds : ∀ event ∈ told, event.kind = .runStarted ∨ event.kind = .runSucceeded
  renews : ∀ id ∈ startsOf told, ∃ e r, c.get? id = some e ∧ c'.get? id = some (e.refreshed r)
  counts : ∀ id, id ∈ refreshed' ↔ id ∈ refreshed ∨ id ∈ startsOf told
  covers : onDemand = true → ∀ id ∈ startsOf told, ∀ p, depends id p → c.Unwritten p →
    p ∈ refreshed'

namespace Refreshes

variable {depends : RuleId → RuleId → Prop} {refreshed'' : List RuleId}

theorem nil : Refreshes onDemand depends refreshed c [] refreshed c where
  succeeds := nofun
  renews := nofun
  counts id := by simp
  covers _ := nofun

/-- A rule that counts as refreshed still does. -/
theorem mem (h : Refreshes onDemand depends refreshed s.catalog told refreshed' s'.catalog)
    (hid : id ∈ refreshed) : id ∈ refreshed' :=
  (h.counts id).mpr (.inl hid)

theorem trans (h : Refreshes onDemand depends refreshed s.catalog told refreshed' s'.catalog)
    (h' : Refreshes onDemand depends refreshed' s'.catalog told' refreshed'' s''.catalog)
    (conducts : Conducts may s told s') (conducts' : Conducts may' s' told' s'')
    (apart : ∀ id, may' id → id ∉ refreshed') :
    Refreshes onDemand depends refreshed s.catalog (told ++ told') refreshed'' s''.catalog := by
  -- No rule has run before and then again.
  have first : ∀ id ∈ startsOf told', id ∉ startsOf told := fun id hid' hid =>
    apart id (conducts'.orderly.allowed id hid') ((h.counts id).mpr (.inr hid))
  refine ⟨fun event he => ?_, fun id hid => ?_, fun id => ?_, fun demanded id hid p hp never => ?_⟩
  · exact (List.mem_append.mp he).elim (h.succeeds event) (h'.succeeds event)
  · rcases List.mem_append.mp (startsOf_append ▸ hid) with hid | hid
    · rw [conducts'.keeps.others id fun hid' => first id hid' hid]
      exact h.renews id hid
    · rw [← conducts.keeps.others id (first id hid)]
      exact h'.renews id hid
  · rw [h'.counts, h.counts, startsOf_append, List.mem_append, or_assoc]
  · rcases List.mem_append.mp (startsOf_append ▸ hid) with hid | hid
    · exact h'.mem (h.covers demanded id hid p hp never)
    · by_cases ran : p ∈ startsOf told
      · exact h'.mem ((h.counts p).mpr (.inr ran))
      · refine h'.covers demanded id hid p hp ?_
        rwa [Catalog.Unwritten, conducts.keeps.others p ran]

end Refreshes

/-- Runs of such rules have gone on between two states. -/
def Proceeds (may : RuleId → Prop) (s s' : State) : Prop := ∃ told, Conducts may s told s'

/-- Runs of such rules have gone on between two states, and none of them has failed. -/
def Completes (onDemand : Bool) (c : Catalog) (may : RuleId → Prop) (refreshed : List RuleId)
    (s : State) (refreshed' : List RuleId) (s' : State) : Prop :=
  ∃ told, Conducts may s told s' ∧
    Refreshes onDemand (DependsOn c.list) refreshed s.catalog told refreshed' s'.catalog

theorem Proceeds.after_still (h : Proceeds may s' s'') (before : Still s s') :
    Proceeds may s s'' := by
  obtain ⟨told, conducts⟩ := h
  exact ⟨told, conducts.after_still before⟩

theorem Proceeds.then_still (h : Proceeds may s s') (after : Still s' s'') :
    Proceeds may s s'' := by
  obtain ⟨told, conducts⟩ := h
  exact ⟨told, conducts.then_still after⟩

namespace Completes

theorem still (h : Still s s') : Completes onDemand c may refreshed s refreshed s' :=
  ⟨[], .still h, h.catalog ▸ .nil⟩

theorem proceeds (h : Completes onDemand c may refreshed s refreshed' s') : Proceeds may s s' := by
  obtain ⟨told, conducts, -⟩ := h
  exact ⟨told, conducts⟩

theorem after_still (h : Completes onDemand c may refreshed s' refreshed' s'')
    (before : Still s s') : Completes onDemand c may refreshed s refreshed' s'' := by
  obtain ⟨told, conducts, refreshes⟩ := h
  exact ⟨told, conducts.after_still before, before.catalog ▸ refreshes⟩

theorem then_still (h : Completes onDemand c may refreshed s refreshed' s')
    (after : Still s' s'') : Completes onDemand c may refreshed s refreshed' s'' := by
  obtain ⟨told, conducts, refreshes⟩ := h
  exact ⟨told, conducts.then_still after, after.catalog ▸ refreshes⟩

end Completes

/-! ## Rules that may run -/

/-- The rows of a state are those of a catalogue, up to what runs leave behind. -/
structure Stands (c : Catalog) (s : State) : Prop where
  indexed : s.catalog.Indexed
  same : c.SameDefinitions s.catalog

/-- A run of the rule can lead to runs of these: the rule and all that it depends on, but for those
that are in progress or refreshed already. -/
def Reached (c : Catalog) (running refreshed : List RuleId) (id a : RuleId) : Prop :=
  Relation.ReflTransGen (DependsOn c.list) id a ∧ a ∉ running ∧ a ∉ refreshed

/-- Within a run of the rule there can be runs of these. -/
def Below (c : Catalog) (running refreshed : List RuleId) (id a : RuleId) : Prop :=
  Relation.TransGen (DependsOn c.list) id a ∧ a ∉ running ∧ a ∉ refreshed

theorem Keeps.stands {touched : RuleId → Prop} (h : Keeps touched s s') (stands : Stands c s) :
    Stands c s' :=
  ⟨h.indexed stands.indexed, stands.same.trans h.rows.sameDefinitions⟩

theorem SameData.stands (h : SameData s s') (stands : Stands c s) : Stands c s' := by
  have untouched : Keeps (fun _ => False) s s' := h.keeps
  exact untouched.stands stands

theorem Stands.dependsOn (h : Stands c s) (indexed : c.Indexed)
    (found : s.catalog.get? id = some e) :
    DependsOn c.list id p ↔ p ∈ e.parents := by
  obtain ⟨e₀, found₀, same⟩ := h.same.exists_get? found
  obtain ⟨listed, rfl⟩ := indexed.get?_eq_some.mp found₀
  rw [← e.definition_parents, ← same, e₀.definition_parents]
  refine ⟨?_, fun hp => ⟨e₀, listed, rfl, hp⟩⟩
  rintro ⟨e₁, listed₁, same_id, hp⟩
  rwa [← indexed.eq_of_id_eq listed₁ listed same_id]

/-- Every nested run goes as runs go: it leads only to runs of rules that it reaches, and if it
succeeds, all of these have. -/
def NestedRun.Conducted (nested : NestedRun) (onDemand silent : Bool) (c : Catalog) : Prop :=
  ∀ running refreshed id x, Stands c x → id ∉ refreshed →
    (nested running refreshed id).Follows (.among (Disturbs silent)) x
      (fun result x' =>
        Completes onDemand c (Reached c running refreshed id) refreshed x result.2 x' ∧
          id ∈ result.2)
      (Proceeds (Reached c running refreshed id) x)

/-! ## Operands on demand -/

theorem refreshLocked_conducts {seen : Entry} (conducted : nested.Conducted onDemand silent c)
    (stands : Stands c x) (fresh : p ∉ refreshed) (found : x.catalog.get? p = some seen) :
    (refreshLocked nested running id p seen refreshed).Follows (.among (Disturbs silent)) x
      (fun refreshed' x' =>
        Completes onDemand c (Reached c running refreshed p) refreshed x refreshed' x' ∧
          p ∈ refreshed')
      (Proceeds (Reached c running refreshed p) x) := by
  unfold refreshLocked
  refine follows_getRow_bind fun x₁ still₁ => ?_
  rw [found]
  dsimp only
  -- Rows do not change meanwhile, so the row is the one that was seen before.
  rw [if_neg fun changed => changed rfl]
  refine follows_of_bind.mpr (Follows.outcome
    (conducted running refreshed p x₁ (still₁.stands stands) fresh) ?_ ?_)
  · rintro ⟨rows, refreshed'⟩ x₂ ⟨completes, now_refreshed⟩
    exact (follows_pure _).mpr ⟨completes.after_still still₁, now_refreshed⟩
  · exact fun cause x₂ proceeds => (follows_throw _).mpr (proceeds.after_still still₁)

theorem refreshDependency_conducts {now : Instant} (conducted : nested.Conducted onDemand silent c)
    (stands : Stands c x) :
    (refreshDependency nested running id now refreshed p).Follows (.among (Disturbs silent)) x
      (fun refreshed' x' =>
        Completes onDemand c (Reached c running refreshed p) refreshed x refreshed' x' ∧
          (x.catalog.Unwritten p → p ∈ refreshed'))
      (Proceeds (Reached c running refreshed p) x) := by
  -- Where nothing is to be done, nothing is left unwritten.
  have idle : ∀ x₁, Still x x₁ → (x.catalog.Unwritten p → p ∈ refreshed) →
      (pure refreshed : Action (List RuleId)).Follows (.among (Disturbs silent)) x₁
        (fun refreshed' x' =>
          Completes onDemand c (Reached c running refreshed p) refreshed x refreshed' x' ∧
            (x.catalog.Unwritten p → p ∈ refreshed'))
        (Proceeds (Reached c running refreshed p) x) :=
    fun x₁ still₁ written => (follows_pure _).mpr ⟨.still still₁, written⟩
  unfold refreshDependency
  split
  · next already => exact idle x (.refl x) fun _ => by simpa using already
  next fresh =>
  replace fresh : p ∉ refreshed := by simpa using fresh
  refine follows_getRow_bind fun x₁ still₁ => ?_
  have stands₁ := still₁.stands stands
  cases found : x.catalog.get? p with
  | none =>
    refine idle x₁ still₁ ?_
    rintro ⟨e, found', -⟩
    rw [found] at found'
    cases found'
  | some seen =>
    dsimp only
    split
    · next not_needed =>
      refine idle x₁ still₁ ?_
      rintro ⟨e, found', never⟩
      obtain rfl : seen = e := Option.some.inj (found.symm.trans found')
      simp [Entry.needsRefresh, never] at not_needed
    split
    -- Under a lock that is held already.
    · refine (refreshLocked_conducts conducted stands₁ fresh (still₁.catalog ▸ found)).mono ?_ ?_
      · rintro refreshed' x₂ ⟨completes, now_refreshed⟩
        exact ⟨completes.after_still still₁, fun _ => now_refreshed⟩
      · exact fun x₂ proceeds => proceeds.after_still still₁
    -- Under a lock that is taken for this, and given back whatever the outcome is.
    · refine follows_still_bind (r := .lockNested p) rfl fun _ x₂ still₂ => ?_
      have still := still₁.trans still₂
      refine follows_of_bind.mpr (Follows.outcome (refreshLocked_conducts conducted
        (still.stands stands) fresh (still.catalog ▸ found)) ?_ ?_)
      · rintro refreshed' x₃ ⟨completes, now_refreshed⟩
        refine follows_still_bind (r := .unlock p) rfl fun _ x₄ still₄ => ?_
        exact follows_check.mpr ((Program.follows_pure _).mpr
          ⟨(completes.after_still still).then_still still₄, fun _ => now_refreshed⟩)
      · intro cause x₃ proceeds
        refine follows_still_bind (r := .unlock p) rfl fun _ x₄ still₄ => ?_
        exact follows_check.mpr ((Program.follows_pure _).mpr
          ((proceeds.after_still still).then_still still₄))

/-- The operands of a rule are looked after one by one. None that was refreshed for one of them is
run for another. -/
theorem refreshDependencies_conducts {dependencies : List RuleId}
    (conducted : nested.Conducted onDemand silent c) (stands : Stands c x)
    (depends : ∀ d ∈ dependencies, DependsOn c.list id d) :
    (refreshDependencies nested running id dependencies refreshed).Follows
      (.among (Disturbs silent)) x
      (fun refreshed' x' =>
        Completes onDemand c (Below c running refreshed id) refreshed x refreshed' x' ∧
          ∀ d ∈ dependencies, x.catalog.Unwritten d → d ∈ refreshed')
      (Proceeds (Below c running refreshed id) x) := by
  unfold refreshDependencies
  refine follows_still_bind (r := .now) rfl fun now x₀ still₀ => ?_
  refine Follows.mono (follows_foldlM_rest (fun rest refreshed' x' => ∃ told done,
    dependencies = done ++ rest ∧ Conducts (Below c running refreshed id) x told x' ∧
      Refreshes onDemand (DependsOn c.list) refreshed x.catalog told refreshed' x'.catalog ∧
      ∀ d ∈ done, x.catalog.Unwritten d → d ∈ refreshed') ?_ dependencies refreshed ?_)
    ?_ fun _ failed => failed
  · rintro d rest refreshed₁ x₁ ⟨told, done, hdone, conducts, refreshes, looked_after⟩
    have depends_d : DependsOn c.list id d := depends d (by simp [hdone])
    -- What a run of this operand leads to has not run for the operands before it.
    have apart : ∀ a, Reached c running refreshed₁ d a →
        Below c running refreshed id a ∧ a ∉ startsOf told := by
      rintro a ⟨reached, not_running, fresh⟩
      exact ⟨⟨.head' depends_d reached, not_running, fun before => fresh (refreshes.mem before)⟩,
        fun ran => fresh ((refreshes.counts a).mpr (.inr ran))⟩
    refine (refreshDependency_conducts conducted (conducts.keeps.stands stands)).mono ?_ ?_
    · rintro refreshed₂ x₂ ⟨⟨told₂, conducts₂, refreshes₂⟩, now_refreshed⟩
      refine ⟨told ++ told₂, done ++ [d], by simp [hdone], conducts.trans conducts₂ apart,
        refreshes.trans refreshes₂ conducts conducts₂ fun a reached => reached.2.2,
        fun a ha never => ?_⟩
      rcases List.mem_append.mp ha with ha | ha
      · exact refreshes₂.mem (looked_after a ha never)
      · obtain rfl := List.mem_singleton.mp ha
        by_cases ran : a ∈ startsOf told
        · exact refreshes₂.mem ((refreshes.counts a).mpr (.inr ran))
        · refine now_refreshed ?_
          rwa [Catalog.Unwritten, conducts.keeps.others a ran]
    · rintro x₂ ⟨told₂, conducts₂⟩
      exact ⟨told ++ told₂, conducts.trans conducts₂ apart⟩
  · exact ⟨[], [], rfl, .still still₀, still₀.catalog ▸ .nil, nofun⟩
  · rintro refreshed' x₁ ⟨told, done, hdone, conducts, refreshes, looked_after⟩
    rw [List.append_nil] at hdone
    exact ⟨⟨told, conducts, refreshes⟩, hdone ▸ looked_after⟩

end Cohort
