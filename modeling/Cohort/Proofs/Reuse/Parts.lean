import Cohort.Proofs.Engine.Selection
import Cohort.Proofs.Manager.Creations

/-!
# The parts of a rule

A rule that makes use of others tests some of its conditions itself, and leaves the rest to the
rules that it is built on. The parts of a rule are what it and all these rules test themselves.
Each part is evaluated on its own, over all transactions of a user. So a table holds the users
that every part selects, and that need not be those that all conditions together select: the
parts can be passed by different transactions of a user.

## Main definitions

* `PartOf` — a rule is another one, or one that the other is built on

## Main results

* `Stocked.mem_users_meaning` — the users of a rule are those that all its parts select
* `reuse_exact_iff` — a table is as declared just if no user passes the parts only apart
-/

namespace Cohort

variable {setup : Setup} {drafts : List RuleDraft} {start s : State} {ts : List Transaction}
  {entries : List Entry} {a e : Entry} {user : Option String}

/-- The row is that of a rule, or of one that this rule is built on. -/
def PartOf (entries : List Entry) (id : RuleId) (a : Entry) : Prop :=
  a ∈ entries ∧ Relation.ReflTransGen (DependsOn entries) id a.id

theorem PartOf.self (he : e ∈ entries) : PartOf entries e.id e := ⟨he, .refl⟩

/-- A part of an operand is a part. -/
theorem PartOf.operand {p : RuleId} (he : e ∈ entries) (hp : p ∈ e.parents)
    (h : PartOf entries p a) : PartOf entries e.id a :=
  ⟨h.1, .head (.of_mem he hp) h.2⟩

/-- A part is the rule itself or a part of an operand. -/
theorem PartOf.cases (distinct : (entries.map Entry.id).Nodup) (he : e ∈ entries)
    (h : PartOf entries e.id a) : a = e ∨ ∃ p ∈ e.parents, PartOf entries p a := by
  obtain ⟨ha, path⟩ := h
  rcases path.cases_head with same | ⟨p, ⟨x, hx, hid, hp⟩, rest⟩
  · exact .inl (List.inj_on_of_nodup_map distinct ha he same.symm)
  · obtain rfl := List.inj_on_of_nodup_map distinct hx he hid
    exact .inr ⟨p, hp, ha, rest⟩

/-- A residual query narrows a dataset to the users that its conditions select, where all users
have transactions. -/
theorem mem_users_narrowed (view : View) (conditions : List Condition) {combined : Dataset}
    (known : user ∈ combined.users → user.isSome = true ∧ ∃ t ∈ ts, t.user = user) :
    user ∈ (narrowed ts (view.residual conditions) combined).users ↔
      user ∈ combined.users ∧ (view.compile conditions).query.Selects ts user := by
  by_cases unfiltered : (view.compile conditions).query.isUnfiltered = true
  · have nothing_left : (view.residual conditions).filter (fun q => !q.isUnfiltered) = none := by
      unfold View.residual
      split <;> simp [Option.filter, unfiltered]
    rw [narrowed, nothing_left, Query.selects_of_isUnfiltered unfiltered]
    exact ⟨fun hu => ⟨hu, (known hu).2⟩, fun hu => hu.1⟩
  · have tested : (view.residual conditions).filter (fun q => !q.isUnfiltered) =
        some (view.compile conditions).query := by
      unfold View.residual
      split
      · next empty =>
        -- Without conditions there is nothing to test.
        obtain rfl := List.isEmpty_iff.mp empty
        exact absurd rfl unfiltered
      · simp [Option.filter, unfiltered]
    rw [narrowed, tested, Dataset.mem_users_intersect, Dataset.mem_users_dropNull,
      Query.mem_users_evaluate]
    constructor
    · exact fun hu => ⟨hu.1, hu.2.1⟩
    · exact fun hu => ⟨hu.1, hu.2, (known hu.1).1⟩

namespace Stocked

/-- The users of a rule are known, and they are those that all its parts select. -/
theorem mem_users_meaning (h : Stocked setup drafts start s) (he : e ∈ s.catalog.list) :
    user ∈ (meaning s.catalog.list ts e.id).users ↔ user.isSome = true ∧
      ∀ a, PartOf s.catalog.list e.id a →
        (setup.view.compile a.rule.conditions).query.Selects ts user := by
  have sound := h.regular.sound
  -- The operands of a rule come before the rule.
  suffices general : ∀ id, ∀ e ∈ s.catalog.list, e.id = id →
      (user ∈ (meaning s.catalog.list ts id).users ↔ user.isSome = true ∧
        ∀ a, PartOf s.catalog.list id a →
          (setup.view.compile a.rule.conditions).query.Selects ts user) from
    general e.id e he rfl
  intro id
  induction id using sound.acyclic.wellFounded.induction with
  | _ id ih =>
  rintro e he rfl
  have parts : ∀ a, PartOf s.catalog.list e.id a → a = e ∨ ∃ p ∈ e.parents, PartOf _ p a :=
    fun a ha => ha.cases sound.indexed.nodup_ids he
  have operand : ∀ p ∈ e.parents, user ∈ (meaning s.catalog.list ts p).users ↔
      user.isSome = true ∧ ∀ a, PartOf s.catalog.list p a →
        (setup.view.compile a.rule.conditions).query.Selects ts user := by
    intro p hp
    obtain ⟨x, hx, hid⟩ := sound.exists_parent he hp
    exact ih p (.of_mem he hp) x hx hid
  rw [meaning_eq sound.acyclic sound.indexed.nodup_ids he]
  cases h.resolved e he with
  | base own source =>
    -- The rule has no parts but itself.
    have no_parents : e.parents = [] := by
      rw [Entry.parents, source]
      rfl
    rw [source, SegmentSource.rows, Dataset.mem_users_dropNull, Query.mem_users_evaluate, and_comm]
    refine and_congr_right fun _ => ⟨fun selects a ha => ?_, fun all => ?_⟩
    · rcases parts a ha with rfl | ⟨p, hp, -⟩
      · rwa [own]
      · rw [no_parents] at hp
        cases hp
    · have selects := all e (.self he)
      rwa [own] at selects
  | cover ids nonempty own source narrower =>
    have same_parents : e.parents = ids := by
      rw [Entry.parents, source]
      rfl
    rw [same_parents] at parts operand
    have operands_nonempty : ids.map (meaning s.catalog.list ts) ≠ [] := by simpa using nonempty
    obtain ⟨combined, hcombined⟩ := Dataset.combine_isOk .intersection operands_nonempty
    have combined_iff : user ∈ combined.users ↔
        ∀ p ∈ ids, user ∈ (meaning s.catalog.list ts p).users := by
      rw [Dataset.mem_users_combine hcombined, List.forall_mem_map]
    -- A user of the combination is in the table of some operand.
    have known : user ∈ combined.users → user.isSome = true ∧ ∃ t ∈ ts, t.user = user := by
      intro hu
      obtain ⟨p, hp⟩ := List.exists_mem_of_ne_nil _ nonempty
      obtain ⟨some_user, selected⟩ := (operand p hp).mp (combined_iff.mp hu p hp)
      obtain ⟨x, hx, hid⟩ := sound.exists_parent he (same_parents ▸ hp)
      exact ⟨some_user, (selected x (hid ▸ .self hx)).exists_mem⟩
    rw [source, SegmentSource.rows, hcombined]
    dsimp only
    rw [mem_users_narrowed setup.view _ known]
    constructor
    · rintro ⟨hu, selects⟩
      refine ⟨(known hu).1, fun a ha => ?_⟩
      rcases parts a ha with rfl | ⟨p, hp, hpa⟩
      · exact selects
      · exact ((operand p hp).mp (combined_iff.mp hu p hp)).2 a hpa
    · rintro ⟨some_user, all⟩
      refine ⟨combined_iff.mpr fun p hp => (operand p hp).mpr ⟨some_user, fun a ha => ?_⟩,
        all e (.self he)⟩
      exact all a (ha.operand he (same_parents ▸ hp))

end Stocked

/-! ## When reuse preserves meaning -/

/-- After rules were created for active drafts without a composition, and one pass, the table of a
rule holds the users that its declared conditions select just if every known user who is
selected by each part on its own is selected by all declared conditions together, and the other
way round. -/
theorem reuse_exact_iff {clock : Clock} {engine : Engine} (onwards : clock.NeverGoesBack)
    (healthy : engine.Healthy) (plain : ∀ d ∈ drafts, d.active = true ∧ d.composition = none)
    (hs : s = (setup.start clock engine).createAll setup drafts) (he : e ∈ s.catalog.list) :
    ∃ rows, ((runPass setup).run s).2.engine.table? e.segment.table = some rows ∧
      ((∀ user, user ∈ rows.users ↔ user ∈ (Dataset.dropNull
          ((setup.view.compile e.rule.declared).query.evaluate engine.transactions)).users) ↔
        ∀ user : String,
          (∀ a, PartOf s.catalog.list e.id a →
            (setup.view.compile a.rule.conditions).query.Selects engine.transactions user) ↔
          (setup.view.compile e.rule.declared).query.Selects engine.transactions user) := by
  subst hs
  have stocked := createAll_stocked setup plain clock engine
  refine ⟨_, stocked.pass onwards healthy he, ?_⟩
  have table_iff : ∀ user, user ∈ (meaning _ engine.transactions e.id).users ↔ _ :=
    fun _ => stocked.mem_users_meaning he
  simp only [table_iff, Dataset.mem_users_dropNull, Query.mem_users_evaluate]
  -- Unknown users are on neither side.
  constructor
  · intro same user
    simpa using same (some user)
  · rintro same (_ | user)
    · simp
    · simpa using same user

/-- One user with two transactions, a rule for each of them, and a rule for both. -/
private def splitDrafts : List RuleDraft :=
  let upi := Condition.of "transaction_type" "=" (.text "UPI")
  let card := Condition.of "transaction_type" "=" (.text "CARD")
  [{ name := "a", conditions := [upi] }, { name := "b", conditions := [card] },
    { name := "c", conditions := [upi, card] }]

/-- An engine that holds these transactions. -/
private def splitEngine : Engine :=
  let day : Date := ⟨2024, 1, 1, by decide⟩
  { transactions :=
      [⟨some "ann", 10.0, day, 1, "UPI", none⟩, ⟨some "ann", 20.0, day, 1, "CARD", none⟩] }

private def splitState : State :=
  (({} : Setup).start (.still ⟨0, 0⟩) splitEngine).createAll {} splitDrafts

theorem reuse_exact_iff_split : ∃ e ∈ splitState.catalog.list,
    e.parents = [RuleId.ofNat 1, RuleId.ofNat 2] ∧ ∃ rows,
      ((runPass {}).run splitState).2.engine.table? e.segment.table = some rows ∧
      ((∀ user, user ∈ rows.users ↔ user ∈ (Dataset.dropNull
          ((View.standard.compile e.rule.declared).query.evaluate
            splitEngine.transactions)).users) ↔
        ∀ user : String,
          (∀ a, PartOf splitState.catalog.list e.id a →
            (View.standard.compile a.rule.conditions).query.Selects
              splitEngine.transactions user) ↔
          (View.standard.compile e.rule.declared).query.Selects
            splitEngine.transactions user) := by
  have found : ∃ e ∈ splitState.catalog.list, e.parents = [RuleId.ofNat 1, RuleId.ofNat 2] := by
    decide +kernel
  obtain ⟨e, he, parents⟩ := found
  exact ⟨e, he, parents, reuse_exact_iff (Clock.still_neverGoesBack _)
    ⟨by decide, by decide, by decide⟩ (by decide) rfl he⟩

/-- No transaction passes both conditions of the last rule, but its table holds the user. -/
theorem reuse_not_exact_split : ∃ e ∈ splitState.catalog.list,
    e.rule.declared.length = 2 ∧
    (((runPass {}).run splitState).2.engine.table? e.segment.table).map Dataset.users =
      some [some "ann"] ∧
    (Dataset.dropNull ((View.standard.compile e.rule.declared).query.evaluate
      splitEngine.transactions)).users = [] := by
  decide +kernel

end Cohort
