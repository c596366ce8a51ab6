import Cohort.Engine.Evaluate

/-!
# Tests with one meaning

The constants of a query matter only through comparison. Constants that compare alike are
interchangeable, and so are tests made of such constants.

## Main definitions

* `Literal.Alike`, `Operand.Alike`, `Predicate.Alike` — the same in every comparison

## Main results

* `Predicate.Alike.holds_eq` — tests that are alike hold of the same values
-/

namespace Cohort

/-! ## Constants -/

namespace Literal

/-- Every constant compares with both in the same way. -/
def Alike (l l' : Literal) : Prop := ∀ actual : Literal, actual.compare? l = actual.compare? l'

variable {l l' l'' : Literal}

theorem Alike.refl (l : Literal) : l.Alike l := fun _ => rfl

theorem Alike.symm (h : l.Alike l') : l'.Alike l := fun actual => (h actual).symm

theorem Alike.trans (h : l.Alike l') (h' : l'.Alike l'') : l.Alike l'' :=
  fun actual => (h actual).trans (h' actual)

end Literal

/-! ## Operands -/

namespace Operand

/-- The operands have one form, and their constants are alike. Of lists only the constants that
occur matter. -/
inductive Alike : Operand → Operand → Prop
  | scalar {l l' : Literal} (h : l.Alike l') : Alike (.scalar l) (.scalar l')
  | list {ls ls' : List Literal} (into : ∀ l ∈ ls, ∃ l' ∈ ls', l.Alike l')
      (back : ∀ l' ∈ ls', ∃ l ∈ ls, l.Alike l') : Alike (.list ls) (.list ls')
  | range {low low' high high' : Literal} (hlow : low.Alike low') (hhigh : high.Alike high') :
      Alike (.range low high) (.range low' high')

variable {o o' o'' : Operand}

theorem Alike.trans (h : o.Alike o') (h' : o'.Alike o'') : o.Alike o'' := by
  cases h with
  | scalar h =>
    cases h' with
    | scalar h' => exact .scalar (h.trans h')
  | list into back =>
    cases h' with
    | list into' back' =>
      refine .list (fun l hl => ?_) (fun l hl => ?_)
      · obtain ⟨m, hm, hlm⟩ := into l hl
        obtain ⟨n, hn, hmn⟩ := into' m hm
        exact ⟨n, hn, hlm.trans hmn⟩
      · obtain ⟨m, hm, hml⟩ := back' l hl
        obtain ⟨n, hn, hnm⟩ := back m hm
        exact ⟨n, hn, hnm.trans hml⟩
  | range hlow hhigh =>
    cases h' with
    | range hlow' hhigh' => exact .range (hlow.trans hlow') (hhigh.trans hhigh')

end Operand

/-! ## Tests -/

namespace Predicate

/-- The tests ask for the same field with the same operator and operands that are alike. -/
structure Alike (p q : Predicate) : Prop where
  field : p.field = q.field
  operator : p.operator = q.operator
  operand : p.operand.Alike q.operand

variable {p q r : Predicate}

theorem Alike.trans (h : p.Alike q) (h' : q.Alike r) : p.Alike r :=
  ⟨h.field.trans h'.field, h.operator.trans h'.operator, h.operand.trans h'.operand⟩

/-- Tests that are alike hold of the same values. -/
theorem Alike.holds_eq (h : p.Alike q) (actual : Literal) : p.holds actual = q.holds actual := by
  obtain ⟨field, operator, operand⟩ := p
  obtain ⟨field', operator', operand'⟩ := q
  obtain ⟨-, same, alike⟩ := h
  dsimp only at same alike
  subst same
  cases alike with
  | scalar h => simp only [holds, h actual]
  | range hlow hhigh =>
    cases operator with
    | between => simp only [holds, hlow actual, hhigh actual]
    | _ => rfl
  | list into back =>
    rename_i ls ls'
    -- What is compared with some constant of one list is compared so with one of the other.
    have same_results : ∀ r, (∃ l ∈ ls, actual.compare? l = r) ↔
        ∃ l ∈ ls', actual.compare? l = r := by
      intro r
      constructor
      · rintro ⟨l, hl, rfl⟩
        obtain ⟨l', hl', alike⟩ := into l hl
        exact ⟨l', hl', (alike actual).symm⟩
      · rintro ⟨l', hl', rfl⟩
        obtain ⟨l, hl, alike⟩ := back l' hl'
        exact ⟨l, hl, alike actual⟩
    have any_eq : ∀ f : Option Ordering → Bool,
        (ls.any fun l => f (actual.compare? l)) = ls'.any fun l => f (actual.compare? l) := by
      intro f
      rw [Bool.eq_iff_iff, List.any_eq_true, List.any_eq_true]
      constructor
      · rintro ⟨l, hl, hf⟩
        obtain ⟨l', hl', same⟩ := (same_results _).mp ⟨l, hl, rfl⟩
        exact ⟨l', hl', same ▸ hf⟩
      · rintro ⟨l, hl, hf⟩
        obtain ⟨l', hl', same⟩ := (same_results _).mpr ⟨l, hl, rfl⟩
        exact ⟨l', hl', same ▸ hf⟩
    have all_eq : ∀ f : Option Ordering → Bool,
        (ls.all fun l => f (actual.compare? l)) = ls'.all fun l => f (actual.compare? l) := by
      intro f
      rw [List.all_eq_not_any_not, List.all_eq_not_any_not, any_eq fun r => !f r]
    cases operator with
    | isIn => exact any_eq fun r => r == some .eq
    | notIn => exact all_eq fun r => r.any fun o => o != .eq
    | _ => rfl

/-- Tests that are alike are passed together, whatever values the fields have. -/
theorem Alike.any_holds_eq (h : p.Alike q) (value? : Field → Option Literal) :
    (value? p.field).any p.holds = (value? q.field).any q.holds := by
  rw [h.field, funext h.holds_eq]

end Predicate

end Cohort
