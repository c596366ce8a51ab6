import Cohort.Proofs.Catalog.Records
import Cohort.Proofs.Decimal.Plain
import Cohort.Proofs.Decimal.Range
import Cohort.Proofs.Query.Compilation

/-!
# Queries that can be stored

The numbers of a compiled query come from the values of its conditions. JSON has only finite
numbers, but a number may also be given as a text, and the texts of infinite and undefined numbers
and of numbers beyond the doubles are accepted too. A query with such a number has no decimal in its
place, and a segment that is stored with this query is not read again.

## Main definitions

* `Json.IsInJson` — if the value is a number, JSON has it
* `Condition.compared` — the values that the field is compared with
* `Condition.InRange` — numbers that are given as texts are in the range of doubles

## Main results

* `Condition.literals_of_accept` — the constants of a test stand for the values of its condition
* `Query.finite_compile_iff` — which conditions have finite numbers in their query
* `Segment.toSegment_toRecord_base` — what a stored query comes back as
* `compile_storable` — when a compiled query is made of decimals, and when it can be stored
-/

namespace Cohort

variable {cs : List Condition} {c c' : Condition} {p p' : Predicate} {j : Json} {l : Literal}
  {operator : Operator} {kind : ValueKind} {o o' : Operand} {view : View} {q : Query} {x : Float}
  {s : Segment}

/-! ## The values of conditions -/

/-- If the value is a number, it is one that JSON has: an integer of 64 bits or a finite double. -/
def Json.IsInJson : Json → Prop
  | .int i => Json.Fits i
  | .float x => Decimal.isFinite x = true
  | _ => True

instance (j : Json) : Decidable j.IsInJson :=
  match j with
  | .int i => inferInstanceAs (Decidable (-(twoTo 63 : Int) ≤ i ∧ i < (twoTo 64 : Int)))
  | .float x => inferInstanceAs (Decidable (Decimal.isFinite x = true))
  | .null | .bool _ | .text _ | .list _ | .object _ => isTrue trivial

namespace Condition

/-- The values that an operator compares the field with. -/
def compared (operator : Operator) (c : Condition) : List Json :=
  match operator with
  | .isIn | .notIn =>
    match c.value with
    | some (.list items) => items
    | _ => []
  | .between => c.value.toList ++ c.upper.toList
  | _ => c.value.toList

/-- If the condition is accepted as a test of numbers, those that are given as texts are in the
range of doubles. -/
def InRange (c : Condition) : Prop :=
  ∀ p, c.accept = .ok p → p.field.valueKind = .numeric →
    ∀ text, Json.text text ∈ c.compared p.operator → Decimal.InRange (Text.trim text)

theorem compared_of_takesList {items : List Json} (h : operator.takesList = true)
    (value : c.value = some (.list items)) : c.compared operator = items := by
  cases operator <;> first | (cases h; done) | simp [compared, value]

theorem compared_of_scalar (no_list : operator.takesList = false) (no_range : operator ≠ .between) :
    c.compared operator = c.value.toList := by
  cases operator <;> first | rfl | exact absurd rfl no_range | cases no_list

/-- The constants of a test stand for the values that its field is compared with, each of which
stands for one. -/
theorem literals_of_accept (h : c.accept = .ok p) :
    (∀ j ∈ c.compared p.operator, (Literal.read? p.field.valueKind j).isSome = true) ∧
      p.operand.literals = (c.compared p.operator).filterMap (Literal.read? p.field.valueKind) := by
  obtain ⟨value, -, -, hvalue, -, hoperand⟩ := accept_eq_ok.mp h
  by_cases takes_list : p.operator.takesList = true
  · obtain ⟨items, rfl, -, all, literals⟩ := (operand_of_takesList takes_list).mp hoperand
    rw [compared_of_takesList takes_list hvalue, literals]
    exact ⟨all, rfl⟩
  by_cases range : p.operator = .between
  · rw [range] at hoperand ⊢
    obtain ⟨high, low', high', hupper, hlow, hhigh, literals⟩ := operand_between.mp hoperand
    rw [literals, compared, hvalue, hupper]
    simp [hlow, hhigh, Operand.literals]
  · rw [Bool.not_eq_true] at takes_list
    obtain ⟨l, hl, literals⟩ := (operand_of_scalar takes_list range).mp hoperand
    rw [compared_of_scalar takes_list range, hvalue, literals]
    simp [hl, Operand.literals]

end Condition

/-! ## Finite numbers -/

namespace Literal

/-- If the constant is a number, it is finite. -/
def IsFinite (l : Literal) : Prop := ∀ x ∈ l.number?, Decimal.isFinite x = true

theorem isFinite_of_not_numeric (h : l.kind ≠ .numeric) : l.IsFinite := by
  cases l with
  | number x => exact absurd rfl h
  | date | text => rintro _ ⟨⟩

/-- A number is finite just if it is written as a decimal. -/
theorem isFinite_iff (numeric : l.kind = .numeric) :
    l.IsFinite ↔ Decimal.IsDecimal l.render := by
  cases l with
  | number x => simp [IsFinite, number?, render, Decimal.isDecimal_writeNumber]
  | date | text => cases numeric

/-- A text stands for a finite number just if it is in the range of doubles, and the numbers of JSON
are finite. -/
theorem isFinite_of_read? (json : j.IsInJson) (h : read? .numeric j = some l) :
    l.IsFinite ↔ ∀ text, j = .text text → Decimal.InRange (Text.trim text) := by
  cases j with
  | int i =>
    obtain rfl := Option.some.inj h
    have small : i.natAbs < 2 ^ 65 := by
      obtain ⟨low, high⟩ := json
      rw [Decimal.twoTo_eq] at low high
      omega
    simp [IsFinite, number?, Decimal.isFinite_ofWhole small]
  | float x =>
    obtain rfl := Option.some.inj h
    have finite : Decimal.isFinite x = true := json
    simp [IsFinite, number?, finite]
  | text text =>
    rw [read?, Option.map_eq_some_iff] at h
    obtain ⟨x, read, rfl⟩ := h
    have finite := Decimal.isFinite_of_readFloat? read
    simp [IsFinite, number?, finite]
  | null | bool | list | object => cases h

end Literal

/-- The numbers among the constants of a condition are finite just if they are in range. -/
theorem Condition.finite_of_accept (json : ∀ operator, ∀ j ∈ c.compared operator, j.IsInJson)
    (h : c.accept = .ok p) (numeric : p.field.valueKind = .numeric) :
    (∀ l ∈ p.operand.literals, l.IsFinite) ↔
      ∀ text, Json.text text ∈ c.compared p.operator → Decimal.InRange (Text.trim text) := by
  obtain ⟨all, literals⟩ := literals_of_accept h
  rw [numeric] at all literals
  rw [literals]
  constructor
  · intro finite text mem
    obtain ⟨l, hl⟩ := Option.isSome_iff_exists.mp (all _ mem)
    exact (Literal.isFinite_of_read? (json _ _ mem) hl).mp
      (finite l (List.mem_filterMap.mpr ⟨_, mem, hl⟩)) text rfl
  · intro range l hl
    obtain ⟨j, mem, hl⟩ := List.mem_filterMap.mp hl
    refine (Literal.isFinite_of_read? (json _ _ mem) hl).mpr ?_
    rintro text rfl
    exact range text mem

/-! ## Compiled queries -/

/-- The numbers of the test are finite. -/
def Predicate.IsFinite (p : Predicate) : Prop := ∀ l ∈ p.operand.literals, l.IsFinite

theorem Query.finite_iff :
    (∀ x ∈ q.numbers, Decimal.isFinite x = true) ↔ ∀ p ∈ q.filters ++ q.having, p.IsFinite := by
  constructor
  · intro finite p hp l hl x number
    exact finite x (mem_numbers.mpr ⟨p, hp, l, hl, number⟩)
  · intro finite x mem
    obtain ⟨p, hp, l, hl, number⟩ := mem_numbers.mp mem
    exact finite p hp l hl x number

theorem Literal.IsFinite.of_render_eq {l' : Literal} (finite : l.IsFinite)
    (same_kind : l.kind = l'.kind) (h : l.render = l'.render) : l'.IsFinite := by
  cases l' with
  | number y =>
    rw [Literal.isFinite_iff same_kind, h] at finite
    exact (Literal.isFinite_iff rfl).mpr finite
  | date | text => exact Literal.isFinite_of_not_numeric (by simp [kind])

theorem Operand.Fits.kind_of_mem (fits : o.Fits operator kind) (mem : l ∈ o.literals) :
    l.kind = kind := by
  cases o with
  | scalar only =>
    rw [List.mem_singleton.mp mem]
    exact fits.2.2
  | list ls => exact fits.2.2 l mem
  | range low high =>
    simp only [literals, List.mem_cons, List.not_mem_nil, or_false] at mem
    rcases mem with rfl | rfl
    · exact fits.2.1
    · exact fits.2.2

theorem Operand.SameTexts.exists_literal (h : o.SameTexts o') (mem : l ∈ o'.literals) :
    ∃ l' ∈ o.literals, l'.render = l.render := by
  cases h with
  | scalar same =>
    rw [List.mem_singleton.mp mem]
    exact ⟨_, List.mem_singleton_self _, same⟩
  | @list ls ls' texts =>
    have there : l.render ∈ ls.map Literal.render := texts ▸ List.mem_map_of_mem mem
    exact List.mem_map.mp there
  | range same_low same_high =>
    simp only [literals, List.mem_cons, List.not_mem_nil, or_false] at mem
    rcases mem with rfl | rfl
    · exact ⟨_, List.mem_cons_self, same_low⟩
    · exact ⟨_, List.mem_cons_of_mem _ List.mem_cons_self, same_high⟩

/-- Whether the numbers of a test are finite is seen from its text. -/
theorem Predicate.IsFinite.of_render_eq (finite : p.IsFinite) (hp : c.accept = .ok p)
    (hp' : c'.accept = .ok p') (h : p.render = p'.render) : p'.IsFinite := by
  have proper := Condition.accept_proper hp
  have proper' := Condition.accept_proper hp'
  obtain ⟨field, -, texts⟩ := Predicate.of_render_eq proper proper' h
  intro l mem
  obtain ⟨l', mem', same⟩ := texts.exists_literal mem
  refine (finite l' mem').of_render_eq ?_ same
  rw [proper.kind_of_mem mem', proper'.kind_of_mem mem, field]

/-- The tests of a compiled query are accepted ones. -/
theorem accept_of_mem_compile
    (mem : p ∈ (view.compile cs).query.filters ++ (view.compile cs).query.having) :
    ∃ c ∈ cs, c.accept = .ok p := by
  have accepted : ∀ kind, p ∈ canonical ((acceptedOf cs).filter fun p => p.field.kind == kind) →
      ∃ c ∈ cs, c.accept = .ok p := fun kind hp =>
    mem_acceptedOf.mp (List.mem_filter.mp ((canonical_spec _).1 p hp)).1
  exact (List.mem_append.mp mem).elim (accepted _) (accepted _)

/-- The text of every accepted test is in the compiled query. -/
theorem exists_mem_compile (hc : c ∈ cs) (hp : c.accept = .ok p) :
    ∃ p' ∈ (view.compile cs).query.filters ++ (view.compile cs).query.having,
      p'.render = p.render := by
  have covered : ∃ p' ∈ canonical ((acceptedOf cs).filter fun p' => p'.field.kind == p.field.kind),
      p'.render = p.render :=
    (canonical_spec _).2 p (List.mem_filter.mpr ⟨mem_acceptedOf.mpr ⟨c, hc, hp⟩, by simp⟩)
  obtain ⟨p', mem, same⟩ := covered
  refine ⟨p', List.mem_append.mpr ?_, same⟩
  cases kind : p.field.kind with
  | raw =>
    rw [kind] at mem
    exact .inl mem
  | aggregate =>
    rw [kind] at mem
    exact .inr mem

/-- The numbers of a compiled query are finite just if those of all accepted tests are. A test that
is left out for another one with its text makes no difference. -/
theorem finite_compile_iff :
    (∀ x ∈ (view.compile cs).query.numbers, Decimal.isFinite x = true) ↔
      ∀ c ∈ cs, ∀ p, c.accept = .ok p → p.IsFinite := by
  rw [Query.finite_iff]
  constructor
  · intro finite c hc p hp
    -- The test itself may be left out, but one with its text is there.
    obtain ⟨p', mem, same⟩ := exists_mem_compile hc hp
    obtain ⟨c', -, hp'⟩ := accept_of_mem_compile mem
    exact (finite p' mem).of_render_eq hp' hp same
  · intro finite p mem
    obtain ⟨c, hc, hp⟩ := accept_of_mem_compile mem
    exact finite c hc p hp

/-! ## Stored queries -/

theorem SegmentRecord.source_of_plan {r : SegmentRecord} {sql text : String}
    (computed : r.compiledQuery = some sql) (unlisted : r.dependsOn = none)
    (planned : r.queryPlan = some text) :
    r.source = match Query.ofPlanText? text with
      | some query => .ok (.base query)
      | none => .error .unreadable := by
  unfold source plan
  rw [planned, computed, unlisted]
  dsimp only
  cases Query.ofPlanText? text <;> rfl

/-- A stored query comes back with its numbers read again, or the segment is not read. -/
theorem Segment.toSegment_toRecord_base (base : s.source = .base q) :
    s.toRecord.toSegment =
      match q.reread? with
      | some again => .ok { s with source := .base again }
      | none => .error .unreadable := by
  have computed : s.toRecord.compiledQuery = some q.sql := by
    simp [toRecord, base, SegmentSource.query?]
  have unlisted : s.toRecord.dependsOn = none := by
    simp [toRecord, base, SegmentSource.dependsOn?]
  have planned : s.toRecord.queryPlan = some q.planText := by simp [toRecord, base]
  unfold SegmentRecord.toSegment
  rw [SegmentRecord.source_of_plan computed unlisted planned, q.ofPlanText?_planText]
  cases q.reread? <;> rfl

/-- A segment with a query is read back as it was just if the numbers of the query are. -/
theorem Segment.toSegment_toRecord_eq_ok_iff (base : s.source = .base q) :
    s.toRecord.toSegment = .ok s ↔ ∀ x ∈ q.numbers, Json.ReadBack x := by
  rw [toSegment_toRecord_base base, ← Query.reread?_eq_some_iff]
  obtain ⟨ruleId, name, table, source, rowCount, lastRefreshedAt, dataAsOf, createdAt⟩ := s
  obtain rfl : source = .base q := base
  cases q.reread? <;> simp

/-- A segment whose query has a number that is not finite is not read. -/
theorem Segment.toSegment_toRecord_eq_error (base : s.source = .base q)
    (infinite : ∃ x ∈ q.numbers, Decimal.isFinite x = false) :
    s.toRecord.toSegment = .error .unreadable := by
  rw [toSegment_toRecord_base base]
  cases again : q.reread? with
  | none => rfl
  | some query =>
    obtain ⟨x, mem, infinite⟩ := infinite
    rw [Query.isFinite_of_reread? (Option.isSome_of_eq_some again) x mem] at infinite
    cases infinite

/-! ## Queries that can be stored -/

/-- The numbers of a compiled query are finite just if all numbers that were given as texts, in
conditions that are accepted, are in the range of doubles. Just the finite ones stand in the query
as decimals. A segment with the query is read back as it was just if all numbers are read back from
their texts in JSON, and it is not read at all if one of them is not finite. -/
theorem compile_storable (view : View) (cs : List Condition)
    (json : ∀ c ∈ cs, ∀ operator, ∀ j ∈ c.compared operator, j.IsInJson) :
    let q := (view.compile cs).query
    ((∀ x ∈ q.numbers, Decimal.isFinite x = true) ↔ ∀ c ∈ cs, c.InRange) ∧
    (∀ x ∈ q.numbers,
      Decimal.IsDecimal (Literal.number x).render ↔ Decimal.isFinite x = true) ∧
    ∀ s : Segment, s.source = .base q →
      (s.toRecord.toSegment = .ok s ↔ ∀ x ∈ q.numbers, Json.ReadBack x) ∧
      ((∃ x ∈ q.numbers, Decimal.isFinite x = false) →
        s.toRecord.toSegment = .error .unreadable) := by
  refine ⟨?_, fun x _ => Decimal.isDecimal_writeNumber, fun s base =>
    ⟨Segment.toSegment_toRecord_eq_ok_iff base, Segment.toSegment_toRecord_eq_error base⟩⟩
  rw [finite_compile_iff]
  refine forall₂_congr fun c hc => forall₂_congr fun p hp => ?_
  by_cases numeric : p.field.valueKind = .numeric
  · rw [forall_prop_of_true numeric]
    exact Condition.finite_of_accept (json c hc) hp numeric
  · -- Texts and dates are no numbers.
    refine iff_of_true (fun l mem => ?_) fun h => absurd h numeric
    have kind := (Condition.accept_proper hp).kind_of_mem mem
    exact Literal.isFinite_of_not_numeric (kind ▸ numeric)

/-- Conditions with numbers that are given as numbers and as texts. -/
private def pricedConditions : List Condition :=
  [.between "amount" (.text " 1e2 ") (.float 250.5),
    .of "city_tier" "IN" (.list [.int 1, .text "2.0"]), .of "total_spend" ">=" (.text "+500")]

/-- A segment with a query. -/
private def segmentOf (query : Query) : Segment :=
  ⟨.ofNat 1, "spenders", "segment_1", .base query, 0, none, none, ⟨0, 0⟩⟩

/-- The numbers of conditions that are given in several ways are read back. -/
theorem compile_storable_priced :
    (∀ c ∈ pricedConditions, ∀ operator, ∀ j ∈ c.compared operator, j.IsInJson) ∧
      (∀ c ∈ pricedConditions, c.InRange) ∧
      (segmentOf (View.standard.compile pricedConditions).query).toRecord.toSegment =
        .ok (segmentOf (View.standard.compile pricedConditions).query) := by
  have json : ∀ c ∈ pricedConditions, ∀ operator, ∀ j ∈ c.compared operator, j.IsInJson := by
    intro c hc operator
    fin_cases hc <;> cases operator <;> decide +kernel
  have finite : ∀ x ∈ (View.standard.compile pricedConditions).query.numbers,
      Decimal.isFinite x = true := by decide +kernel
  have readBack : ∀ x ∈ (View.standard.compile pricedConditions).query.numbers,
      Json.ReadBack x := by decide +kernel
  obtain ⟨range, -, stored⟩ := compile_storable View.standard pricedConditions json
  exact ⟨json, range.mp finite, (stored (segmentOf _) rfl).1.mpr readBack⟩

/-- Infinite and undefined numbers get into queries by their names and as too many digits. -/
private def unboundedConditions : List Condition :=
  [.of "amount" ">" (.text "inf"), .of "city_tier" "IN" (.list [.int 1, .text "NaN"]),
    .of "total_spend" "<" (.text "-1e400")]

/-- A finite number that is read as another one. -/
private def chargedConditions : List Condition := [.of "amount" ">" (.text "1.602176634e-19")]

/-- Names of infinite and undefined numbers and a number that is too large are accepted, stand in
the query as no decimals, and the stored query is not read again. A finite number comes back as
another one. -/
theorem not_storable_of_texts :
    ((View.standard.compile unboundedConditions).warnings = [] ∧
      (acceptedOf unboundedConditions).map Predicate.render =
        ["amount > inf", "city_tier IN (1, NaN)", "SUM(amount) < -inf"] ∧
      ∀ c ∈ unboundedConditions,
        (∃ x ∈ (View.standard.compile [c]).query.numbers, Decimal.isFinite x = false) ∧
        (segmentOf (View.standard.compile [c]).query).toRecord.toSegment = .error .unreadable) ∧
    (∀ x ∈ (View.standard.compile chargedConditions).query.numbers, Decimal.isFinite x = true) ∧
    (segmentOf (View.standard.compile chargedConditions).query).toRecord.toSegment ≠
      .ok (segmentOf (View.standard.compile chargedConditions).query) := by
  -- The stored texts are too long to be read here step by step; the numbers tell what is read.
  have infinite : ∀ c ∈ unboundedConditions,
      ∃ x ∈ (View.standard.compile [c]).query.numbers, Decimal.isFinite x = false := by
    decide +kernel
  have changed : ¬ ∀ x ∈ (View.standard.compile chargedConditions).query.numbers,
      Json.ReadBack x := by decide +kernel
  refine ⟨⟨by decide +kernel, by decide +kernel, fun c hc => ⟨infinite c hc, ?_⟩⟩,
    by decide +kernel, fun same => changed ?_⟩
  · exact Segment.toSegment_toRecord_eq_error rfl (infinite c hc)
  · exact (Segment.toSegment_toRecord_eq_ok_iff rfl).mp same

end Cohort
