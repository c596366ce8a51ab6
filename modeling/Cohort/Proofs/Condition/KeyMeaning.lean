import Cohort.Proofs.Condition.Spelling
import Cohort.Proofs.Decimal.Printing
import Cohort.Proofs.Decimal.Whole
import Cohort.Proofs.Query.Acceptance
import Cohort.Proofs.Text.Digits

/-!
# What keys mean

Conditions with one key ask for the same thing: both are accepted or neither is, and as tests
that are alike. This rests on the text of a number telling how the number compares.

## Main definitions

* `Condition.values` — the values of a condition that can stand for constants
* `NumbersTold` — numbers with one text compare alike, among some values

## Main results

* `NumbersTold.of_exact` — numbers that JSON has texts for are told apart by them
* `Condition.accept_of_key_eq` — conditions with one key are accepted as tests that are alike
* `Condition.passes_of_keys` — what passes some conditions passes others that have their keys
-/

namespace Cohort

/-- The values of a condition that can stand for constants: the value or the items of a list, and
the upper bound. -/
def Condition.values (c : Condition) : List Json :=
  (match c.value with
  | some (.list items) => items
  | some j => [j]
  | none => []) ++ c.upper.toList

/-- Among these values, numbers with one text compare alike, in keys and in queries. JSON has no
text for infinite or undefined numbers, so none of them is there. -/
structure NumbersTold (values : List Json) : Prop where
  exact : ∀ j ∈ values, j.IsExact
  inKeys : ∀ j ∈ values, ∀ j' ∈ values, ∀ x x', j.number? = some x → j'.number? = some x' →
    Condition.canonicalText j = Condition.canonicalText j' →
    (Literal.number x).Alike (.number x')
  inQueries : ∀ j ∈ values, ∀ j' ∈ values, ∀ x x', Literal.read? .numeric j = some (.number x) →
    Literal.read? .numeric j' = some (.number x') →
    Decimal.writeNumber x = Decimal.writeNumber x' → (Literal.number x).Alike (.number x')

/-! ## Constants -/

section Constants

variable {values : List Json} {j j' : Json} {kind : ValueKind} {l : Literal} {x : Float}

theorem Literal.read?_of_number (h : j.number? = some x) :
    read? kind j = some l ↔ kind = .numeric ∧ l = .number x := by
  cases j <;> simp only [Json.number?, reduceCtorEq, Option.some_inj] at h <;> subst h <;>
    cases kind <;> simp [read?, Json.text?, eq_comm]

/-- Only texts and numbers stand for constants. -/
theorem Literal.isScalar_of_read? (h : read? kind j = some l) : j.IsScalar := by
  cases j with
  | text s => exact .inl ⟨s, rfl⟩
  | int i => exact .inr ⟨_, rfl⟩
  | float x => exact .inr ⟨x, rfl⟩
  | _ => cases kind <;> simp [read?, Json.text?] at h

/-- Values with one canonical text stand for constants that are alike. -/
theorem NumbersTold.read? (told : NumbersTold values) (hj : j ∈ values)
    (hj' : j' ∈ values ∨ ∃ items, j' = .list items)
    (same : Condition.canonicalText j = Condition.canonicalText j')
    (h : Literal.read? kind j = some l) :
    ∃ l', Literal.read? kind j' = some l' ∧ l.Alike l' := by
  have exact' : j'.IsExact := by
    rcases hj' with hj' | ⟨items, rfl⟩
    · exact told.exact j' hj'
    · exact fun x hx => by cases hx
  have nothing : Condition.EndsItem [] := fun c more hc => absurd hc (List.cons_ne_nil _ _).symm
  have chars : (Condition.canonicalText j).toList ++ [] =
      (Condition.canonicalText j').toList ++ [] := by rw [same]
  -- A constant is read from a text or a number, so both values are one or the other.
  rcases (Condition.canonicalText_append_inj (told.exact j hj) exact'
    (Literal.isScalar_of_read? h) nothing nothing chars).2 with
    ⟨s, rfl, rfl⟩ | ⟨x, x', number, number'⟩
  · exact ⟨l, h, .refl l⟩
  · obtain ⟨rfl, rfl⟩ := (Literal.read?_of_number number).mp h
    have listed : j' ∈ values := by
      rcases hj' with hj' | ⟨items, rfl⟩
      · exact hj'
      · cases number'
    exact ⟨.number x', (Literal.read?_of_number number').mpr ⟨rfl, rfl⟩,
      told.inKeys j hj j' listed x x' number number' same⟩

/-- A double that equals a small integer compares as this integer does. -/
theorem Literal.alike_ofWhole {i : Int} (h : Decimal.smallWhole? x = some i) :
    (Literal.number x).Alike (.number (Decimal.ofWhole i)) := by
  have small := (Option.filter_eq_some_iff.mp h).2
  have bounded : i.natAbs < 2 ^ 53 :=
    Nat.lt_trans (of_decide_eq_true small) (by decide)
  have read : Decimal.smallWhole? (Decimal.ofWhole i) = some i :=
    Option.filter_eq_some_iff.mpr ⟨Decimal.wholeValue?_ofWhole bounded, small⟩
  apply Decimal.alike_of_writeNumber_eq
  rw [Decimal.writeNumber, Decimal.writeNumber, h, read]

/-- The canonical text of a number is that of an integer that compares alike, or else the text of
a double. -/
theorem Condition.canonicalText_of_number (exact : j.IsExact) (h : j.number? = some x) :
    (∃ i, canonicalText j = toString i ∧ (Literal.number x).Alike (.number (Decimal.ofWhole i))) ∨
      canonicalText j = Decimal.writeJson x ∧ Decimal.isFinite x = true := by
  cases j with
  | int i =>
    obtain rfl := Option.some_inj.mp h
    exact .inl ⟨i, rfl, .refl _⟩
  | float y =>
    obtain rfl := Option.some_inj.mp h
    rw [canonicalText]
    cases whole : Decimal.smallWhole? y with
    | some i => exact .inl ⟨i, rfl, Literal.alike_ofWhole whole⟩
    | none => exact .inr ⟨rfl, exact y rfl⟩
  | _ => cases h

/-- All numbers that JSON has texts for are told apart. -/
theorem NumbersTold.of_exact (exact : ∀ j ∈ values, j.IsExact) : NumbersTold values where
  exact := exact
  inKeys j hj j' hj' x x' hx hx' same := by
    rcases Condition.canonicalText_of_number (exact j hj) hx with
      ⟨i, text, alike⟩ | ⟨text, finite⟩ <;>
    rcases Condition.canonicalText_of_number (exact j' hj') hx' with
      ⟨i', text', alike'⟩ | ⟨text', finite'⟩ <;>
    rw [text, text'] at same
    · obtain rfl := Text.toString_injective same
      exact alike.trans alike'.symm
    · exact absurd same.symm (Decimal.writeJson_ne_toString finite' i)
    · exact absurd same (Decimal.writeJson_ne_toString finite i')
    · exact Decimal.alike_of_writeJson_eq finite finite' same
  inQueries _ _ _ _ _ _ _ _ same := Decimal.alike_of_writeNumber_eq same

/-- Numbers are told apart where only one number occurs. -/
theorem NumbersTold.of_single (x : Float) (exact : ∀ j ∈ values, j.IsExact)
    (single : ∀ j ∈ values, ∀ l ∈ Literal.read? .numeric j, l = .number x) :
    NumbersTold values := by
  have number : ∀ j ∈ values, ∀ y, j.number? = some y → y = x := by
    intro j hj y hy
    have read : Literal.read? .numeric j = some (.number y) :=
      (Literal.read?_of_number hy).mpr ⟨rfl, rfl⟩
    exact Literal.number.inj (single j hj _ read)
  refine ⟨exact, fun j hj j' hj' y y' hy hy' _ => ?_, fun j hj j' hj' y y' hy hy' _ => ?_⟩
  · rw [number j hj y hy, number j' hj' y' hy']
    exact .refl _
  · rw [single j hj _ hy, single j' hj' _ hy']
    exact .refl _

end Constants

/-! ## Conditions -/

namespace Condition

variable {values : List Json} {c c' : Condition} {p : Predicate}

theorem mem_values_of_item {items : List Json} {j : Json} (h : c.value = some (.list items))
    (hj : j ∈ items) : j ∈ c.values := by
  simp [Condition.values, h, hj]

/-- A value that stands for a constant is not a list. -/
theorem mem_values_of_read? {j : Json} {kind : ValueKind} {l : Literal} (h : c.value = some j)
    (hl : Literal.read? kind j = some l) : j ∈ c.values := by
  rcases Literal.isScalar_of_read? hl with ⟨s, rfl⟩ | ⟨x, number⟩
  · simp [Condition.values, h]
  · cases j <;> simp only [Json.number?, reduceCtorEq] at number <;> simp [Condition.values, h]

theorem mem_values_of_value {j : Json} (h : c.value = some j) :
    j ∈ c.values ∨ ∃ items, j = .list items := by
  cases j with
  | list items => exact .inr ⟨items, rfl⟩
  | _ => exact .inl (by simp [Condition.values, h])

theorem mem_values_of_upper {j : Json} (h : c.upper = some j) : j ∈ c.values := by
  simp [Condition.values, h]

theorem parsedField?_of_key_eq (h : c.key = c'.key) : c.parsedField? = c'.parsedField? := by
  have fields : c.field.map Field.normalForm = c'.field.map Field.normalForm :=
    congrArg Key.field h
  have parsed : ∀ raw : Option String, raw.bind Field.parse? =
      (raw.map Field.normalForm).bind Field.ofName? := by
    intro raw
    cases raw with
    | none => rw [Option.map_none, Option.bind_none, Option.bind_none]
    | some raw => rw [Option.map_some, Option.bind_some, Option.bind_some, Field.parse?]
  rw [parsedField?, parsed c.field, fields, ← parsed, ← parsedField?]

theorem parsedOperator?_of_key_eq (h : c.key = c'.key) :
    c.parsedOperator? = c'.parsedOperator? := by
  have operators : c.operator.map canonicalOperator = c'.operator.map canonicalOperator :=
    congrArg Key.operator h
  have parsed : ∀ raw : Option String, raw.bind Operator.parse? =
      (raw.map canonicalOperator).bind Operator.parse? := by
    intro raw
    cases raw with
    | none => rw [Option.map_none, Option.bind_none]
    | some raw =>
      rw [Option.map_some, Option.bind_some, Option.bind_some, Operator.parse?_canonicalOperator]
  rw [parsedOperator?, parsed c.operator, operators, ← parsed, ← parsedOperator?]

theorem canonicalValue_of_scalar {operator : Operator} (h : operator.takesList = false)
    (j : Json) : canonicalValue (some operator) j = canonicalText j := by
  cases j <;> simp [canonicalValue, h]

theorem canonicalValue_none (j : Json) : canonicalValue none j = canonicalText j := by
  cases j <;> simp [canonicalValue]

/-- Only the texts of lists begin with a bracket. -/
theorem exists_list_of_canonicalText {j : Json} {more : List Char} (exact : j.IsExact)
    (h : (canonicalText j).toList = '[' :: more) : ∃ items, j = .list items := by
  -- A bracket is not a character of a number.
  have no_numeral : ¬ Decimal.IsNumeralText (canonicalText j) := by
    rintro ⟨-, numeral⟩
    rw [h, List.all_cons, Bool.and_eq_true] at numeral
    exact absurd numeral.1 (by decide)
  cases j with
  | list items => exact ⟨items, rfl⟩
  | int i => exact absurd (Decimal.toString_spec i) no_numeral
  | float x =>
    rcases canonicalText_cases exact with ⟨s, hs, -⟩ | ⟨-, numeral⟩ | ⟨⟨-, no_number⟩, -⟩
    · cases hs
    · exact absurd numeral no_numeral
    · cases no_number
  | null =>
    rw [canonicalText, Json.render, String.toList_ofList, Json.chars] at h
    exact absurd (List.cons.inj h).1 (by decide)
  | bool b =>
    rw [canonicalText, Json.render, String.toList_ofList] at h
    cases b <;> exact absurd (List.cons.inj h).1 (by decide)
  | text s =>
    rw [canonicalText, Json.render, String.toList_ofList, Json.chars, Json.renderText] at h
    exact absurd (List.cons.inj h).1 (by decide)
  | object members =>
    rw [canonicalText, Json.render, String.toList_ofList, Json.chars] at h
    exact absurd (List.cons.inj h).1 (by decide)

/-! ## Conditions with one key -/

/-- What the values of a condition under an operator that takes a list have in common. -/
theorem items_of_canonicalValue_eq {operator : Operator} {items : List Json} {j : Json}
    (takes_list : operator.takesList = true) (exact : j.IsExact)
    (same : canonicalValue (some operator) (.list items) = canonicalValue (some operator) j) :
    ∃ items', j = .list items' ∧
      ",".intercalate (sortedTexts (canonicalItems items)) =
        ",".intercalate (sortedTexts (canonicalItems items')) := by
  have brackets : ∀ items, (canonicalValue (some operator) (.list items)).toList =
      '[' :: ((",".intercalate (sortedTexts (canonicalItems items))).toList ++ [']']) := by
    intro items
    rw [canonicalValue, if_pos (by exact takes_list), String.toList_append, String.toList_append]
    rfl
  have chars := congrArg String.toList same
  rw [brackets] at chars
  obtain ⟨items', rfl⟩ : ∃ items', j = .list items' := by
    cases j with
    | list items' => exact ⟨items', rfl⟩
    | _ => exact exists_list_of_canonicalText exact chars.symm
  rw [brackets] at chars
  exact ⟨items', rfl, String.toList_inj.mp (List.append_cancel_right (List.cons.inj chars).2)⟩

variable {operator : Operator} {kind : ValueKind} {value value' : Json}
  {upper upper' : Option Json} {o : Operand}

/-- Lists with one canonical text are operands that are alike. -/
theorem operand_alike_of_takesList (told : NumbersTold values)
    (takes_list : operator.takesList = true) (exact : value'.IsExact)
    (within : ∀ items, value = .list items → ∀ j ∈ items, j ∈ values)
    (within' : ∀ items, value' = .list items → ∀ j ∈ items, j ∈ values)
    (same : canonicalValue (some operator) value = canonicalValue (some operator) value')
    (h : operand operator kind value upper = .ok o) :
    ∃ o', operand operator kind value' upper' = .ok o' ∧ o.Alike o' := by
  obtain ⟨items, rfl, some_items, all, rfl⟩ := (operand_of_takesList takes_list).mp h
  obtain ⟨items', rfl, same_texts⟩ := items_of_canonicalValue_eq takes_list exact same
  have scalar : ∀ j ∈ items, j.IsScalar := by
    intro j hj
    obtain ⟨l, hl⟩ := Option.isSome_iff_exists.mp (all j hj)
    exact Literal.isScalar_of_read? hl
  have hitems := within items rfl
  have hitems' := within' items' rfl
  have texts := sortedTexts_inj some_items (fun j hj => told.exact j (hitems j hj))
    (fun j hj => told.exact j (hitems' j hj)) scalar same_texts
  -- Each item of either list has one with its text in the other.
  have into : ∀ j ∈ items, ∃ j' ∈ items', canonicalText j = canonicalText j' := by
    intro j hj
    obtain ⟨j', hj', same⟩ :=
      mem_canonicalItems.mp ((texts _).mp (mem_canonicalItems.mpr ⟨j, hj, rfl⟩))
    exact ⟨j', hj', same.symm⟩
  have back : ∀ j' ∈ items', ∃ j ∈ items, canonicalText j = canonicalText j' := fun j' hj' =>
    mem_canonicalItems.mp ((texts _).mpr (mem_canonicalItems.mpr ⟨j', hj', rfl⟩))
  have read : ∀ j ∈ items, ∀ j' ∈ items', canonicalText j = canonicalText j' →
      ∃ l l', Literal.read? kind j = some l ∧ Literal.read? kind j' = some l' ∧ l.Alike l' := by
    intro j hj j' hj' same
    obtain ⟨l, hl⟩ := Option.isSome_iff_exists.mp (all j hj)
    obtain ⟨l', hl', alike⟩ := told.read? (hitems j hj) (.inl (hitems' j' hj')) same hl
    exact ⟨l, l', hl, hl', alike⟩
  have all' : ∀ j' ∈ items', (Literal.read? kind j').isSome = true := by
    intro j' hj'
    obtain ⟨j, hj, same⟩ := back j' hj'
    obtain ⟨-, l', -, hl', -⟩ := read j hj j' hj' same
    exact Option.isSome_iff_exists.mpr ⟨l', hl'⟩
  have some_items' : items' ≠ [] := by
    obtain ⟨j, hj⟩ := List.exists_mem_of_ne_nil _ some_items
    obtain ⟨j', hj', -⟩ := into j hj
    exact List.ne_nil_of_mem hj'
  -- So the constants of either list are alike to those of the other.
  refine ⟨_, (operand_of_takesList takes_list).mpr ⟨items', rfl, some_items', all', rfl⟩, ?_⟩
  refine .list (fun l hl => ?_) (fun l' hl' => ?_)
  · obtain ⟨j, hj, hl⟩ := List.mem_filterMap.mp hl
    obtain ⟨j', hj', same⟩ := into j hj
    obtain ⟨m, l', hm, hl', alike⟩ := read j hj j' hj' same
    obtain rfl := Option.some_inj.mp (hm.symm.trans hl)
    exact ⟨l', List.mem_filterMap.mpr ⟨j', hj', hl'⟩, alike⟩
  · obtain ⟨j', hj', hl'⟩ := List.mem_filterMap.mp hl'
    obtain ⟨j, hj, same⟩ := back j' hj'
    obtain ⟨l, m', hl, hm', alike⟩ := read j hj j' hj' same
    obtain rfl := Option.some_inj.mp (hm'.symm.trans hl')
    exact ⟨l, List.mem_filterMap.mpr ⟨j, hj, hl⟩, alike⟩

/-- Conditions with one key are accepted as tests that are alike. -/
theorem accept_of_key_eq (told : NumbersTold values) (hc : ∀ j ∈ c.values, j ∈ values)
    (hc' : ∀ j ∈ c'.values, j ∈ values) (same : c.key = c'.key) (h : c.accept = .ok p) :
    ∃ p', c'.accept = .ok p' ∧ p.Alike p' := by
  obtain ⟨value, hfield, hoperator, hvalue, allowed, hoperand⟩ := accept_eq_ok.mp h
  -- The values are compared under one operator, as the operators are the same.
  obtain ⟨value', hvalue', same_value⟩ : ∃ value', c'.value = some value' ∧
      canonicalValue (some p.operator) value = canonicalValue (some p.operator) value' := by
    have values_eq : c.value.map (canonicalValue c.parsedOperator?) =
        c'.value.map (canonicalValue c'.parsedOperator?) := congrArg Key.value same
    rw [← parsedOperator?_of_key_eq same, hoperator, hvalue, Option.map_some] at values_eq
    obtain ⟨value', hvalue', same_value⟩ := Option.map_eq_some_iff.mp values_eq.symm
    exact ⟨value', hvalue', same_value.symm⟩
  -- It is enough to find an operand that is alike.
  suffices operands : ∃ o', operand p.operator p.field.valueKind value' c'.upper = .ok o' ∧
      p.operand.Alike o' by
    obtain ⟨o', ho', alike⟩ := operands
    refine ⟨⟨p.field, p.operator, o'⟩, accept_eq_ok.mpr ?_, ⟨rfl, rfl, alike⟩⟩
    exact ⟨value', parsedField?_of_key_eq same ▸ hfield, parsedOperator?_of_key_eq same ▸ hoperator,
      hvalue', allowed, ho'⟩
  have listed' : value' ∈ values ∨ ∃ items, value' = .list items :=
    (mem_values_of_value hvalue').imp_left (hc' value')
  by_cases takes_list : p.operator.takesList = true
  · refine operand_alike_of_takesList told takes_list ?_ ?_ ?_ same_value hoperand
    · rcases listed' with hj | ⟨items, rfl⟩
      · exact told.exact value' hj
      · exact fun x hx => by cases hx
    · rintro items rfl j hj
      exact hc j (mem_values_of_item hvalue hj)
    · rintro items rfl j hj
      exact hc' j (mem_values_of_item hvalue' hj)
  rw [Bool.not_eq_true] at takes_list
  rw [canonicalValue_of_scalar takes_list, canonicalValue_of_scalar takes_list] at same_value
  by_cases range : p.operator = .between
  · rw [range] at hoperand ⊢
    obtain ⟨high, low', high', hupper, hlow, hhigh, ho⟩ := operand_between.mp hoperand
    -- The upper bound is compared as a single value, whatever the operator is.
    obtain ⟨upper', hupper', same_upper⟩ : ∃ upper', c'.upper = some upper' ∧
        canonicalText high = canonicalText upper' := by
      have uppers : c.upper.map (canonicalValue none) = c'.upper.map (canonicalValue none) :=
        congrArg Key.upper same
      rw [hupper, Option.map_some] at uppers
      obtain ⟨upper', hupper', same_upper⟩ := Option.map_eq_some_iff.mp uppers.symm
      rw [canonicalValue_none, canonicalValue_none] at same_upper
      exact ⟨upper', hupper', same_upper.symm⟩
    obtain ⟨low'', hlow'', low_alike⟩ :=
      told.read? (hc value (mem_values_of_read? hvalue hlow)) listed' same_value hlow
    obtain ⟨high'', hhigh'', high_alike⟩ := told.read? (hc high (mem_values_of_upper hupper))
      (.inl (hc' upper' (mem_values_of_upper hupper'))) same_upper hhigh
    refine ⟨_, operand_between.mpr ⟨upper', low'', high'', hupper', hlow'', hhigh'', rfl⟩, ?_⟩
    rw [ho]
    exact .range low_alike high_alike
  · obtain ⟨l, hl, ho⟩ := (operand_of_scalar takes_list range).mp hoperand
    obtain ⟨l', hl', alike⟩ :=
      told.read? (hc value (mem_values_of_read? hvalue hl)) listed' same_value hl
    refine ⟨_, (operand_of_scalar takes_list range).mpr ⟨l', hl', rfl⟩, ?_⟩
    rw [ho]
    exact .scalar alike

/-- What passes the tests of some conditions passes those of conditions that have their keys. -/
theorem passes_of_keys {xs ys : List Condition} {kind : FieldKind} {f : Predicate → Bool}
    (told : NumbersTold values) (hxs : ∀ x ∈ xs, ∀ j ∈ x.values, j ∈ values)
    (hys : ∀ y ∈ ys, ∀ j ∈ y.values, j ∈ values) (keys : ∀ y ∈ ys, ∃ x ∈ xs, x.key = y.key)
    (same : ∀ p q : Predicate, p.Alike q → f p = f q)
    (passes : ∀ x ∈ xs, ∀ p, x.accept = .ok p → p.field.kind = kind → f p = true) :
    ∀ y ∈ ys, ∀ q, y.accept = .ok q → q.field.kind = kind → f q = true := by
  intro y hy q hq hkind
  obtain ⟨x, hx, key⟩ := keys y hy
  obtain ⟨p, hp, alike⟩ := accept_of_key_eq told (hys y hy) (hxs x hx) key.symm hq
  rw [same q p alike]
  exact passes x hx p hp (alike.field ▸ hkind)

end Condition

end Cohort
