import Mathlib.Data.List.TakeWhile
import Cohort.Query.Compile
import Cohort.Proofs.Query.Text

/-!
# Accepted conditions

A condition is accepted if its field and operator can be read and go together, and if its values
are of the kind of the field. The test that it becomes is made of these, and its operand is one
for its operator.

## Main results

* `Condition.accept_eq_ok` — when a condition is accepted, and as which test
* `Condition.accept_proper` — accepted tests are proper
-/

namespace Cohort

/-! ## Blank texts -/

namespace Text

theorem trim_of_isBlankText {s : String} (h : isBlankText s = true) : trim s = "" := by
  have nothing : trimStartChars s.toList = [] := by
    refine List.dropWhile_eq_nil_iff.mpr fun c hc => ?_
    exact List.all_eq_true.mp h c hc
  rw [trim, trimChars, nothing]
  rfl

theorem words_of_isBlankText {s : String} (h : isBlankText s = true) : words s = [] := by
  have nothing : ∀ cs : List Char, (∀ c ∈ cs, isBlank c = true) → wordsFrom [] cs = [] := by
    intro cs
    induction cs with
    | nil => exact fun _ => rfl
    | cons c rest ih =>
      intro blank
      obtain ⟨hc, hrest⟩ := List.forall_mem_cons.mp blank
      rw [wordsFrom, if_pos hc]
      exact ih hrest
  rw [words, nothing _ fun c hc => List.all_eq_true.mp h c hc]
  rfl

end Text

theorem Field.parse?_of_isBlankText {s : String} (h : Text.isBlankText s = true) :
    parse? s = none := by
  rw [parse?, normalForm, Text.trim_of_isBlankText h]
  decide

theorem Operator.parse?_of_isBlankText {s : String} (h : Text.isBlankText s = true) :
    parse? s = none := by
  rw [parse?, normalForm, Text.words_of_isBlankText h]
  decide

/-! ## Constants and operands -/

theorem Literal.kind_of_read? {kind : ValueKind} {value : Json} {l : Literal}
    (h : Literal.read? kind value = some l) : l.kind = kind := by
  cases kind with
  | numeric =>
    cases value <;> simp only [read?, Option.some.injEq, reduceCtorEq, Option.map_eq_some_iff] at h
    · exact h ▸ rfl
    · exact h ▸ rfl
    · obtain ⟨x, -, rfl⟩ := h
      rfl
  | date =>
    obtain ⟨d, -, rfl⟩ := Option.map_eq_some_iff.mp h
    rfl
  | text =>
    obtain ⟨s, -, rfl⟩ := Option.map_eq_some_iff.mp h
    rfl

namespace Condition

variable {kind : ValueKind} {operator : Operator} {value : Json} {upper : Option Json} {l : Literal}
  {o : Operand} {p : Predicate} {c : Condition}

theorem literal_eq_ok : literal kind value = .ok l ↔ Literal.read? kind value = some l := by
  unfold literal
  split
  · next l' found => rw [found, Except.ok.injEq, Option.some_inj]
  · next missing => simp [missing]

/-- Every item of a list stands for a constant, and these make up the operand. -/
theorem literals_eq_ok {items : List Json} {ls : List Literal} :
    literals kind items = .ok ls ↔ (∀ j ∈ items, (Literal.read? kind j).isSome = true) ∧
      ls = items.filterMap (Literal.read? kind) := by
  induction items generalizing ls with
  | nil =>
    rw [literals, Except.ok.injEq, List.filterMap_nil]
    exact ⟨fun h => ⟨fun j hj => absurd hj List.not_mem_nil, h.symm⟩, fun h => h.2.symm⟩
  | cons j rest ih =>
    rw [List.forall_mem_cons, literals]
    cases found : Literal.read? kind j with
    | none => simp [literal, found]
    | some l =>
      rw [literal_eq_ok.mpr found, List.filterMap_cons_some found]
      cases tail : literals kind rest with
      | error e =>
        have bad : ¬ ∀ j ∈ rest, (Literal.read? kind j).isSome = true := fun all => by
          rw [ih.mpr ⟨all, rfl⟩] at tail
          cases tail
        simp [bad]
      | ok ls' =>
        obtain ⟨all, rfl⟩ := ih.mp tail
        simp only [Except.ok.injEq, Option.isSome_some, true_and]
        exact ⟨fun h => ⟨all, h.symm⟩, fun h => h.2.symm⟩

theorem present_eq_ok {member : Option String} {missing : Rejection} {s : String} :
    present member missing = .ok s ↔ member = some s ∧ Text.isBlankText s = false := by
  cases member with
  | none => simp [present]
  | some t =>
    rw [present]
    split
    · next blank =>
      simp only [reduceCtorEq, Option.some_inj, false_iff, not_and, Bool.not_eq_false]
      rintro rfl
      exact blank
    · next inked =>
      simp only [Except.ok.injEq, Option.some_inj]
      constructor
      · rintro rfl
        exact ⟨rfl, by simpa using inked⟩
      · exact And.left

private theorem bind_eq_ok {α β : Type} {x : Except Rejection α} {f : α → Except Rejection β}
    {b : β} : (x >>= f) = .ok b ↔ ∃ a, x = .ok a ∧ f a = .ok b := by
  cases x with
  | error e =>
    change Except.error e = .ok b ↔ _
    simp
  | ok a =>
    change f a = .ok b ↔ _
    simp

/-- Under an operator that takes a list, the value is a list of constants. -/
theorem operand_of_takesList (h : operator.takesList = true) :
    operand operator kind value upper = .ok o ↔ ∃ items, value = .list items ∧ items ≠ [] ∧
      (∀ j ∈ items, (Literal.read? kind j).isSome = true) ∧
      o = .list (items.filterMap (Literal.read? kind)) := by
  cases value with
  | list items =>
    simp only [Json.list.injEq, exists_eq_left', ne_eq]
    cases items with
    | nil =>
      have refused : operand operator kind (.list []) upper = .error (.emptyList operator) := by
        cases operator <;> first | rfl | cases h
      simp [refused]
    | cons first rest =>
      have unfolded : operand operator kind (.list (first :: rest)) upper =
          (literals kind (first :: rest)).map .list := by
        cases operator <;> first | rfl | cases h
      rw [unfolded]
      constructor
      · intro h
        cases found : literals kind (first :: rest) with
        | error e =>
          rw [found] at h
          cases h
        | ok ls =>
          rw [found] at h
          obtain rfl := Except.ok.inj h
          obtain ⟨all, rfl⟩ := literals_eq_ok.mp found
          exact ⟨List.cons_ne_nil _ _, all, rfl⟩
      · rintro ⟨-, all, rfl⟩
        rw [literals_eq_ok.mpr ⟨all, rfl⟩]
        rfl
  | _ =>
    constructor
    · intro ho
      -- Any other value is refused.
      cases operator <;> first | cases ho | cases h
    · rintro ⟨items, hvalue, -⟩
      cases hvalue

/-- A range has two constants. -/
theorem operand_between : operand .between kind value upper = .ok o ↔
    ∃ high low' high', upper = some high ∧ Literal.read? kind value = some low' ∧
      Literal.read? kind high = some high' ∧ o = .range low' high' := by
  cases upper with
  | none => simp [operand]
  | some high =>
    simp only [operand, bind_eq_ok, literal_eq_ok, Option.some_inj]
    constructor
    · rintro ⟨low', hlow, high', hhigh, h⟩
      exact ⟨high, low', high', rfl, hlow, hhigh, (Except.ok.inj h).symm⟩
    · rintro ⟨_, low', high', rfl, hlow, hhigh, rfl⟩
      exact ⟨low', hlow, high', hhigh, rfl⟩

/-- Under other operators the value is a single constant. -/
theorem operand_of_scalar (no_list : operator.takesList = false) (no_range : operator ≠ .between) :
    operand operator kind value upper = .ok o ↔
      ∃ l, Literal.read? kind value = some l ∧ o = .scalar l := by
  have unfolded : operand operator kind value upper = (literal kind value).map .scalar := by
    cases operator <;> first | rfl | exact absurd rfl no_range | cases no_list
  rw [unfolded]
  cases found : literal kind value with
  | error e =>
    have missing : ∀ l, Literal.read? kind value ≠ some l := fun l hl => by
      rw [literal_eq_ok.mpr hl] at found
      cases found
    simp [Except.map, missing]
  | ok l =>
    rw [literal_eq_ok] at found
    simp [Except.map, found, eq_comm]

/-- The operand of a condition is one for its operator. -/
theorem operand_fits (h : operand operator kind value upper = .ok o) : o.Fits operator kind := by
  by_cases takes_list : operator.takesList = true
  · obtain ⟨items, -, some_items, all, rfl⟩ := (operand_of_takesList takes_list).mp h
    refine ⟨takes_list, ?_, fun l hl => ?_⟩
    · obtain ⟨j, hj⟩ := List.exists_mem_of_ne_nil _ some_items
      obtain ⟨l, hl⟩ := Option.isSome_iff_exists.mp (all j hj)
      exact List.ne_nil_of_mem (List.mem_filterMap.mpr ⟨j, hj, hl⟩)
    · obtain ⟨j, -, hj⟩ := List.mem_filterMap.mp hl
      exact Literal.kind_of_read? hj
  · by_cases range : operator = .between
    · subst range
      obtain ⟨high, low', high', -, hlow, hhigh, rfl⟩ := operand_between.mp h
      exact ⟨rfl, Literal.kind_of_read? hlow, Literal.kind_of_read? hhigh⟩
    · rw [Bool.not_eq_true] at takes_list
      obtain ⟨l, hl, rfl⟩ := (operand_of_scalar takes_list range).mp h
      exact ⟨takes_list, range, Literal.kind_of_read? hl⟩

/-- A condition is accepted just if its field and operator can be read and go together, and if it
has a value that is an operand for them. -/
theorem accept_eq_ok : c.accept = .ok p ↔ ∃ value, c.parsedField? = some p.field ∧
    c.parsedOperator? = some p.operator ∧ c.value = some value ∧
    p.field.allows p.operator = true ∧
    operand p.operator p.field.valueKind value c.upper = .ok p.operand := by
  unfold accept parsedField? parsedOperator?
  simp only [bind_eq_ok, present_eq_ok, Option.bind_eq_some_iff]
  constructor
  · rintro ⟨rawField, ⟨hfield, -⟩, rawOperator, ⟨hoperator, -⟩, h⟩
    cases hvalue : c.value with
    | none => simp [hvalue, bind_eq_ok] at h
    | some value =>
      cases hf : Field.parse? rawField with
      | none => simp [hvalue, hf, bind_eq_ok] at h
      | some field =>
        cases ho : Operator.parse? rawOperator with
        | none => simp [hvalue, hf, ho, bind_eq_ok] at h
        | some operator =>
          simp only [hvalue, hf, ho, bind_eq_ok, Except.ok.injEq, exists_eq_left'] at h
          split at h
          · next allowed =>
            obtain ⟨o, hoperand, h⟩ := bind_eq_ok.mp h
            obtain rfl := Except.ok.inj h
            exact ⟨value, ⟨rawField, hfield, hf⟩, ⟨rawOperator, hoperator, ho⟩, rfl, allowed,
              hoperand⟩
          · cases h
  · rintro ⟨value, ⟨rawField, hfield, hf⟩, ⟨rawOperator, hoperator, ho⟩, hvalue, allowed,
      hoperand⟩
    -- A field or operator that can be read is not blank.
    have field_inked : Text.isBlankText rawField = false := by
      by_contra blank
      rw [Field.parse?_of_isBlankText (by simpa using blank)] at hf
      cases hf
    have operator_inked : Text.isBlankText rawOperator = false := by
      by_contra blank
      rw [Operator.parse?_of_isBlankText (by simpa using blank)] at ho
      cases ho
    refine ⟨rawField, ⟨hfield, field_inked⟩, rawOperator, ⟨hoperator, operator_inked⟩, ?_⟩
    simp only [hvalue, hf, ho, bind_eq_ok, Except.ok.injEq, exists_eq_left', if_pos allowed]
    exact ⟨p.operand, hoperand, rfl⟩

/-- Accepted tests are proper. -/
theorem accept_proper (h : c.accept = .ok p) : p.Proper := by
  obtain ⟨value, -, -, -, -, hoperand⟩ := accept_eq_ok.mp h
  exact operand_fits hoperand

end Condition

end Cohort
