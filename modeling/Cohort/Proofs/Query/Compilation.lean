import Cohort.Proofs.Query.Acceptance

/-!
# Compiled conditions

A compiled query has the tests of the accepted conditions, each text once. Dropping a test whose
text is there already changes nothing, because a test with this text stays.

## Main results

* `canonical_spec`, `all_canonical_iff` — what stays of the tests
* `Query.keeps_compile` — a transaction is kept just if it passes all accepted raw tests
* `Query.keepsGroup_compile` — and a group just if it passes all accepted aggregate tests
-/

namespace Cohort

variable {conditions : List Condition} {c c' : Condition} {p : Predicate}
  {ps : List Predicate} {view : View} {t : Transaction} {g : Group}

/-- Only given tests stay, and each given test has its text among those that stay. -/
theorem canonical_spec (ps : List Predicate) :
    (∀ p ∈ canonical ps, p ∈ ps) ∧ ∀ p ∈ ps, ∃ q ∈ canonical ps, q.render = p.render := by
  obtain ⟨listed, covered⟩ := eraseRepsBy_spec (r := fun a b : Predicate => a.render == b.render)
    (fun a => beq_self_eq_true a.render) (sortBy (fun a b => !decide (b.render < a.render)) ps)
  refine ⟨fun p hp => mem_sortBy.mp (listed p hp), fun p hp => ?_⟩
  obtain ⟨q, hq, same⟩ := covered p (mem_sortBy.mpr hp)
  exact ⟨q, hq, eq_of_beq same⟩

theorem mem_acceptedOf : p ∈ acceptedOf conditions ↔ ∃ c ∈ conditions, c.accept = .ok p := by
  rw [acceptedOf, List.mem_filterMap]
  refine exists_congr fun c => and_congr_right fun _ => ?_
  cases c.accept <;> simp [Except.toOption]

/-- Accepted tests with one text are alike. -/
theorem Condition.alike_of_render_eq {q : Predicate} (hp : c.accept = .ok p)
    (hq : c'.accept = .ok q) (h : p.render = q.render) : p.Alike q :=
  Predicate.alike_of_render_eq (accept_proper hp) (accept_proper hq) h

/-- Tests of one kind pass together just if those pass that stay of them. -/
theorem all_canonical_iff {kind : FieldKind} {f : Predicate → Bool}
    (same : ∀ p q : Predicate, p.Alike q → f p = f q) :
    (canonical ((acceptedOf conditions).filter fun p => p.field.kind == kind)).all f = true ↔
      ∀ c ∈ conditions, ∀ p, c.accept = .ok p → p.field.kind = kind → f p = true := by
  obtain ⟨only, covered⟩ :=
    canonical_spec ((acceptedOf conditions).filter fun p => p.field.kind == kind)
  rw [List.all_eq_true]
  constructor
  · intro passes c hc p hp hkind
    -- The test itself may be dropped, but one with its text stays.
    obtain ⟨q, hq, text⟩ := covered p
      (List.mem_filter.mpr ⟨mem_acceptedOf.mpr ⟨c, hc, hp⟩, by simpa using hkind⟩)
    obtain ⟨c', hc', hq'⟩ := mem_acceptedOf.mp (List.mem_filter.mp (only q hq)).1
    rw [← same q p (Condition.alike_of_render_eq hq' hp text)]
    exact passes q hq
  · intro passes q hq
    obtain ⟨accepted, hkind⟩ := List.mem_filter.mp (only q hq)
    obtain ⟨c, hc, hp⟩ := mem_acceptedOf.mp accepted
    exact passes c hc q hp (by simpa using hkind)

/-- A transaction is kept just if it passes all accepted raw tests. -/
theorem Query.keeps_compile :
    (view.compile conditions).query.keeps t = true ↔
      ∀ c ∈ conditions, ∀ p, c.accept = .ok p → p.field.kind = .raw →
        (t.value? p.field).any p.holds = true :=
  all_canonical_iff fun _ _ alike => alike.any_holds_eq t.value?

/-- A group is kept just if it passes all accepted aggregate tests. -/
theorem Query.keepsGroup_compile :
    (view.compile conditions).query.keepsGroup g = true ↔
      ∀ c ∈ conditions, ∀ p, c.accept = .ok p → p.field.kind = .aggregate →
        (g.value? p.field).any p.holds = true :=
  all_canonical_iff fun _ _ alike => alike.any_holds_eq g.value?

/-- Where all accepted tests are raw, there are no tests on groups. -/
theorem Query.having_compile_eq_nil
    (raw : ∀ c ∈ conditions, ∀ p, c.accept = .ok p → p.field.kind = .raw) :
    (view.compile conditions).query.having = [] := by
  rw [List.eq_nil_iff_forall_not_mem]
  intro p hp
  obtain ⟨accepted, aggregate⟩ := List.mem_filter.mp ((canonical_spec _).1 p hp)
  obtain ⟨c, hc, hp⟩ := mem_acceptedOf.mp accepted
  rw [raw c hc p hp] at aggregate
  exact absurd aggregate (by decide)

end Cohort
