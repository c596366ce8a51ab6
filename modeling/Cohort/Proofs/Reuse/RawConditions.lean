import Cohort.Proofs.Condition.KeyMeaning
import Cohort.Proofs.Condition.KeySets
import Cohort.Proofs.Query.Compilation
import Cohort.Proofs.Reuse.Parts

/-!
# Reuse with raw conditions

Raw conditions test single transactions. A transaction that passes all declared conditions of a
rule passes those of each of its parts, because each of these has the key of a declared one and
so asks for the same. Then every part selects the user of this transaction, and no user is lost.

## Main definitions

* `Condition.IsRaw` — the condition, if it is accepted, tests single transactions

## Main results

* `Stocked.exists_key_eq` — the conditions of the parts have the keys of declared ones
* `reuse_loses_no_user` — a table holds all users that the declared conditions select
-/

namespace Cohort

variable {setup : Setup} {drafts : List RuleDraft} {start s : State} {ts : List Transaction}
  {a e : Entry} {user : Option String}

/-- If the condition is accepted, it tests single transactions. -/
def Condition.IsRaw (c : Condition) : Prop := ∀ p, c.accept = .ok p → p.field.kind = .raw

instance (c : Condition) : Decidable c.IsRaw :=
  match h : c.accept with
  | .ok p => decidable_of_iff (p.field.kind = .raw) (by simp [Condition.IsRaw, h])
  | .error _ => isTrue fun p hp => by cases h.symm.trans hp

/-- The values in the conditions of some drafts. -/
def RuleDraft.values (drafts : List RuleDraft) : List Json :=
  drafts.flatMap fun d => d.conditions.flatMap Condition.values

namespace Stocked

/-- What a rule tests itself is declared. -/
theorem mem_declared (h : Stocked setup drafts start s) (he : e ∈ s.catalog.list)
    {x : Condition} (hx : x ∈ e.rule.conditions) : x ∈ e.rule.declared := by
  cases h.resolved e he with
  | base own source => exact own ▸ hx
  | cover ids nonempty own source narrower => exact own x hx

/-- The conditions of the parts of a rule have the keys of its declared conditions. -/
theorem exists_key_eq (h : Stocked setup drafts start s) (he : e ∈ s.catalog.list)
    (ha : PartOf s.catalog.list e.id a) {x : Condition} (hx : x ∈ a.rule.conditions) :
    ∃ y ∈ e.rule.declared, y.key = x.key := by
  have sound := h.regular.sound
  obtain ⟨ha, path⟩ := ha
  -- Along the path the declared conditions have more and more keys.
  suffices widening : ∀ id, Relation.ReflTransGen (DependsOn s.catalog.list) id a.id →
      ∀ e ∈ s.catalog.list, e.id = id → ∃ y ∈ e.rule.declared, y.key = x.key from
    widening e.id path e he rfl
  intro id path
  induction path using Relation.ReflTransGen.head_induction_on with
  | refl =>
    intro e he same
    obtain rfl := List.inj_on_of_nodup_map sound.indexed.nodup_ids he ha same
    exact ⟨x, h.mem_declared he hx, rfl⟩
  | head step _ ih =>
    -- The next rule on the path was chosen because its conditions are part of those of this one.
    rintro e he rfl
    obtain ⟨f, hf, same, hp⟩ := step
    obtain rfl := List.inj_on_of_nodup_map sound.indexed.nodup_ids hf he same
    cases h.resolved f hf with
    | base own source =>
      rw [Entry.parents, source] at hp
      cases hp
    | cover ids nonempty own source narrower =>
      rw [Entry.parents, source] at hp
      obtain ⟨r, found, subset⟩ := narrower _ hp
      obtain ⟨hr, hid⟩ := sound.indexed.get?_eq_some.mp found
      obtain ⟨y, hy, key⟩ := ih r hr hid
      obtain ⟨z, hz, key'⟩ := KeySet.subset_ofConditions.mp subset y hy
      exact ⟨z, hz, key'.trans key⟩

/-- Whoever is selected by the declared conditions of a rule is selected by each of its parts. -/
theorem selects_part (h : Stocked setup drafts start s)
    (raw : ∀ d ∈ drafts, ∀ c ∈ d.conditions, c.IsRaw) (told : NumbersTold (RuleDraft.values drafts))
    (he : e ∈ s.catalog.list) (ha : PartOf s.catalog.list e.id a)
    (selected : (setup.view.compile e.rule.declared).query.Selects ts user) :
    (setup.view.compile a.rule.conditions).query.Selects ts user := by
  have declared : ∀ f ∈ s.catalog.list, ∀ c ∈ f.rule.declared,
      c.IsRaw ∧ ∀ j ∈ c.values, j ∈ RuleDraft.values drafts := by
    intro f hf c hc
    obtain ⟨d, hd, same⟩ := h.drafted f hf
    rw [same] at hc
    refine ⟨raw d hd c hc, fun j hj => ?_⟩
    exact List.mem_flatMap.mpr ⟨d, hd, List.mem_flatMap.mpr ⟨c, hc, hj⟩⟩
  have whole := declared e he
  have part : ∀ c ∈ a.rule.conditions, c.IsRaw ∧ ∀ j ∈ c.values, j ∈ RuleDraft.values drafts :=
    fun c hc => declared a ha.1 c (h.mem_declared ha.1 hc)
  rw [Query.selects_of_having_eq_nil
    (Query.having_compile_eq_nil fun c hc => (whole c hc).1)] at selected
  obtain ⟨t, ht, kept, hu⟩ := selected
  rw [Query.selects_of_having_eq_nil (Query.having_compile_eq_nil fun c hc => (part c hc).1)]
  refine ⟨t, ht, ?_, hu⟩
  -- The same transaction passes the tests of the part.
  rw [Query.keeps_compile] at kept ⊢
  exact Condition.passes_of_keys told (fun c hc => (whole c hc).2) (fun c hc => (part c hc).2)
    (fun x hx => h.exists_key_eq he ha hx) (fun _ _ alike => alike.any_holds_eq t.value?) kept

end Stocked

/-- After rules were created for active drafts without a composition and without conditions on
aggregates, and one pass, the table of a rule holds every known user that its declared conditions
select. -/
theorem reuse_loses_no_user {clock : Clock} {engine : Engine} (onwards : clock.NeverGoesBack)
    (healthy : engine.Healthy) (plain : ∀ d ∈ drafts, d.active = true ∧ d.composition = none)
    (raw : ∀ d ∈ drafts, ∀ c ∈ d.conditions, c.IsRaw)
    (told : NumbersTold (RuleDraft.values drafts))
    (hs : s = (setup.start clock engine).createAll setup drafts) (he : e ∈ s.catalog.list) :
    ∃ rows, ((runPass setup).run s).2.engine.table? e.segment.table = some rows ∧
      ∀ user : String,
        some user ∈ ((setup.view.compile e.rule.declared).query.evaluate
          engine.transactions).users → some user ∈ rows.users := by
  subst hs
  have stocked := createAll_stocked setup plain clock engine
  refine ⟨_, stocked.pass onwards healthy he, fun user selected => ?_⟩
  rw [Query.mem_users_evaluate] at selected
  exact (stocked.mem_users_meaning he).mpr
    ⟨rfl, fun a ha => stocked.selects_part raw told he ha selected⟩

/-- Two rules and a third one that asks for both in another spelling, and for something that makes
no sense. -/
private def respelledDrafts : List RuleDraft :=
  [{ name := "large", conditions := [.of "amount" ">=" (.int 100)] },
    { name := "upi", conditions := [.of "transaction_type" "=" (.text "UPI")] },
    { name := "both", conditions := [.of " Amount " ">=" (.float 100.0),
      .of "transaction_type" "=" (.text "UPI"), .of "mood" "=" (.int 100)] }]

/-- An engine that holds a transaction which all of them select, and one which only the second
selects. -/
private def respelledEngine : Engine :=
  let day : Date := ⟨2024, 3, 1, by decide⟩
  { transactions :=
      [⟨some "ann", 150.0, day, 1, "UPI", none⟩, ⟨some "bob", 50.0, day, 1, "UPI", none⟩] }

private def respelledState : State :=
  (({} : Setup).start (.still ⟨0, 0⟩) respelledEngine).createAll {} respelledDrafts

theorem reuse_loses_no_user_respelled : ∃ e ∈ respelledState.catalog.list,
    e.parents = [RuleId.ofNat 1, RuleId.ofNat 2] ∧ ∃ rows,
      ((runPass {}).run respelledState).2.engine.table? e.segment.table = some rows ∧
      some "ann" ∈ rows.users := by
  have found : ∃ e ∈ respelledState.catalog.list,
      e.parents = [RuleId.ofNat 1, RuleId.ofNat 2] ∧
        some "ann" ∈ ((({} : Setup).view.compile e.rule.declared).query.evaluate
          respelledEngine.transactions).users := by
    decide +kernel
  obtain ⟨e, he, parents, selected⟩ := found
  have told : NumbersTold (RuleDraft.values respelledDrafts) :=
    .of_single 100.0 (by decide +kernel) (by decide +kernel)
  obtain ⟨rows, table, kept⟩ := reuse_loses_no_user (s := respelledState)
    (Clock.still_neverGoesBack _) ⟨by decide, by decide, by decide⟩ (by decide) (by decide +kernel)
    told rfl he
  exact ⟨e, he, parents, rows, table, kept "ann" selected⟩

end Cohort
