import Cohort.Query.Json
import Cohort.Json.Shape
import Cohort.Proofs.Calendar.DateText
import Cohort.Proofs.Json.Reading

/-!
# Stored queries

A query is stored as JSON text with every constant, operand and test tagged by its kind. It comes
back with its numbers read again from their texts, and else as it was: names and texts may hold any
characters, and a query is nested six deep at most. Infinite and undefined numbers have no text, so
a query with one of them does not come back.

## Main definitions

* `Query.numbers` — the numbers among the constants of a query
* `Query.reread?` — the query with its numbers read again from their texts

## Main results

* `Query.ofPlanText?_planText` — what a stored query comes back as
* `Query.reread?_eq_some_iff` — it comes back as it was just if its numbers do
* `Query.isFinite_of_reread?` — it comes back only if all its numbers are finite
-/

namespace Cohort

/-! ## Numbers -/

/-- The constant as a number, if it is one. -/
def Literal.number? : Literal → Option Float
  | .number x => some x
  | .date _ | .text _ => none

/-- The constants of an operand. -/
def Operand.literals : Operand → List Literal
  | .scalar l => [l]
  | .list ls => ls
  | .range low high => [low, high]

/-- The numbers among the constants of a query. -/
def Query.numbers (q : Query) : List Float :=
  (q.filters ++ q.having).flatMap fun p => p.operand.literals.filterMap Literal.number?

/-! ## Lists -/

section Lists

variable {α : Type} {f : α → Option α} {read : Json → Option α} {write : α → Json}
  {as bs : List α} {a : α}

theorem mapM_eq_some_self_iff : as.mapM f = some as ↔ ∀ a ∈ as, f a = some a := by
  induction as with
  | nil => simp
  | cons a as ih =>
    rw [List.mapM_cons, List.forall_mem_cons, ← ih]
    cases f a <;> cases as.mapM f <;> simp

theorem isSome_of_mapM (h : as.mapM f = some bs) (mem : a ∈ as) : (f a).isSome := by
  induction as generalizing bs with
  | nil => cases mem
  | cons first as ih =>
    rw [List.mapM_cons] at h
    obtain ⟨b, hb, h⟩ := Option.bind_eq_some_iff.mp h
    obtain ⟨bs', hbs, -⟩ := Option.bind_eq_some_iff.mp h
    rcases List.mem_cons.mp mem with rfl | later
    · rw [hb]
      rfl
    · exact ih hbs later

namespace Json

/-- A list is read again item by item. -/
theorem listOf?_reread? (as : List α) (h : ∀ a, (reread? (write a)).bind read = f a) :
    (reread? (.list (as.map write))).bind (listOf? read) = as.mapM f := by
  rw [reread?, Option.bind_map]
  change (rereadItems? (as.map write)).bind (fun items => items.mapM read) = as.mapM f
  induction as with
  | nil => rfl
  | cons a as ih =>
    -- An item that fails makes the list fail, whether its text fails or what the text stands for.
    rw [List.map_cons, rereadItems?, List.mapM_cons, ← h a, ← ih]
    cases reread? (write a) with
    | none => rfl
    | some j =>
      cases rereadItems? (as.map write) with
      | none => cases done : read j <;> simp [done]
      | some items => exact List.mapM_cons

/-- An object with one member is read again with it. -/
theorem reread?_member (key : String) (j : Json) :
    reread? (.object [(key, j)]) = (reread? j).map fun k => .object [(key, k)] := by
  rw [reread?, rereadMembers?, rereadMembers?]
  cases reread? j <;> rfl

end Json

end Lists

open Json

variable {l : Literal} {operand : Operand} {p : Predicate} {q : Query}

/-! ## Constants -/

namespace Literal

/-- The constant with its number read again, if it is one. -/
def reread? : Literal → Option Literal
  | .number x => (rereadDouble? x).map .number
  | l => some l

theorem legible (depth : Nat) (l : Literal) : Legible outline (depth + 1) l.toJson := by
  cases l <;> simp [toJson, outline, Outline.plain, Outline.member?, memberNames, List.lookup]

theorem readWith_reread? (l : Literal) :
    (Json.reread? l.toJson).bind (readWith unitVariant?) = l.reread? := by
  cases l with
  | number x =>
    cases finite : Decimal.isFinite x with
    | true =>
      cases read : rereadDouble? x <;>
        simp [toJson, reread?, readWith, shape?, memberNames, Shape.required, List.lookup,
          unitVariant?, variant?, finite, read, readNumber?]
    | false =>
      simp [toJson, reread?, readWith, shape?, memberNames, Shape.required, List.lookup,
        unitVariant?, variant?, finite, rereadDouble?_of_not_finite finite, readNumber?]
  | date d =>
    simp [toJson, reread?, readWith, shape?, memberNames, Shape.required, List.lookup,
      unitVariant?, variant?, text?, Date.parseLoose?_text]
  | text s => rfl

/-- The number that a constant is, if it is one, is read back. -/
def ReadBack (l : Literal) : Prop := ∀ x ∈ l.number?, Json.ReadBack x

theorem reread?_eq_some_iff : l.reread? = some l ↔ l.ReadBack := by
  cases l with
  | number x => simp [reread?, ReadBack, number?, readBack_iff]
  | date | text => simp [reread?, ReadBack, number?]

theorem isFinite_of_reread? (h : l.reread?.isSome) :
    ∀ x ∈ l.number?, Decimal.isFinite x = true := by
  cases l with
  | number x =>
    rintro _ ⟨⟩
    obtain ⟨y, read⟩ := Option.isSome_iff_exists.mp (Option.isSome_map ▸ h)
    exact isFinite_of_rereadDouble? read
  | date | text => rintro _ ⟨⟩

end Literal

/-! ## Operands -/

namespace Operand

/-- The operand with its numbers read again. -/
def reread? : Operand → Option Operand
  | .scalar l => l.reread?.map .scalar
  | .list ls => (ls.mapM Literal.reread?).map .list
  | .range low high => do
    let low ← low.reread?
    let high ← high.reread?
    return .range low high

theorem legible (depth : Nat) (operand : Operand) :
    Legible outline (depth + 3) operand.toJson := by
  cases operand with
  | scalar l =>
    have within := Literal.legible (depth + 1) l
    simpa [toJson, outline, Outline.member?, List.lookup] using within
  | list ls =>
    have within : LegibleItems (.items Literal.outline) 0 (depth + 1) (ls.map Literal.toJson) :=
      legibleItems_map Literal.outline (fun _ => rfl) fun l _ => l.legible depth
    simpa [toJson, outline, Outline.member?, List.lookup] using within
  | range low high =>
    have first := low.legible depth
    have second := high.legible depth
    simpa [toJson, outline, Outline.member?, Outline.item, List.lookup] using
      And.intro first second

theorem readWith_reread? (operand : Operand) :
    (Json.reread? operand.toJson).bind (readWith unitVariant?) = operand.reread? := by
  cases operand with
  | scalar l =>
    rw [toJson, reread?, reread?_member, Option.bind_map, ← l.readWith_reread?]
    cases Json.reread? l.toJson <;> rfl
  | list ls =>
    rw [toJson, reread?, reread?_member, Option.bind_map,
      ← listOf?_reread? ls Literal.readWith_reread?]
    cases Json.reread? (.list (ls.map Literal.toJson)) <;> rfl
  | range low high =>
    rw [toJson, reread?, reread?_member, Option.bind_map, ← low.readWith_reread?,
      ← high.readWith_reread?]
    cases again : Json.reread? low.toJson <;> cases again' : Json.reread? high.toJson <;>
      simp [readWith, variant?, again, again']

theorem reread?_eq_some_iff :
    operand.reread? = some operand ↔ ∀ l ∈ operand.literals, l.ReadBack := by
  simp only [← Literal.reread?_eq_some_iff]
  cases operand with
  | scalar l => simp [reread?, literals]
  | list ls => simp [reread?, literals, mapM_eq_some_self_iff]
  | range low high =>
    cases again : low.reread? <;> cases again' : high.reread? <;>
      simp [reread?, literals, again, again']

theorem isSome_of_reread? (h : operand.reread?.isSome) :
    ∀ l ∈ operand.literals, l.reread?.isSome := by
  intro l mem
  obtain ⟨again, h⟩ := Option.isSome_iff_exists.mp h
  cases operand with
  | scalar only =>
    obtain ⟨k, hk, -⟩ := Option.map_eq_some_iff.mp h
    rw [List.mem_singleton.mp mem, hk]
    rfl
  | list ls =>
    obtain ⟨ks, hks, -⟩ := Option.map_eq_some_iff.mp h
    exact isSome_of_mapM hks mem
  | range low high =>
    obtain ⟨k, hk, h⟩ := Option.bind_eq_some_iff.mp h
    obtain ⟨k', hk', -⟩ := Option.bind_eq_some_iff.mp h
    simp only [literals, List.mem_cons, List.not_mem_nil, or_false] at mem
    rcases mem with rfl | rfl
    · rw [hk]
      rfl
    · rw [hk']
      rfl

end Operand

/-! ## Tests -/

/-- The exact name of a field is read back. -/
theorem Field.ofName?_name (field : Field) : ofName? field.name = some field := by
  cases field <;> decide

/-- The exact symbol of an operator is read back. -/
theorem Operator.ofSymbol?_symbol (operator : Operator) :
    ofSymbol? operator.symbol = some operator := by
  cases operator <;> decide

namespace Predicate

/-- The test with its numbers read again. -/
def reread? (p : Predicate) : Option Predicate :=
  p.operand.reread?.map fun operand => ⟨p.field, p.operator, operand⟩

theorem legible (depth : Nat) (p : Predicate) : Legible outline (depth + 4) p.toJson := by
  have within := p.operand.legible depth
  simpa [toJson, outline, Outline.member?, List.lookup] using within

theorem ofJson?_reread? (p : Predicate) : (Json.reread? p.toJson).bind ofJson? = p.reread? := by
  rw [reread?, ← p.operand.readWith_reread?]
  cases again : Json.reread? p.operand.toJson with
  | none => simp [toJson, again]
  | some j =>
    simp only [toJson, Json.reread?, rereadMembers?, again, Option.bind_some, Option.map_some,
      ofJson?, readWith, shape?, memberNames, Shape.required]
    cases done : Operand.readWith unitVariant? j <;>
      simp [List.lookup, unitVariant?, variant?, Field.ofName?_name, Operator.ofSymbol?_symbol,
        done]

theorem reread?_eq_some_iff : p.reread? = some p ↔ ∀ l ∈ p.operand.literals, l.ReadBack := by
  rw [← Operand.reread?_eq_some_iff]
  cases p
  simp [reread?]

end Predicate

/-! ## Queries -/

namespace Query

/-- The query with its numbers read again from their texts, if these can be read. -/
def reread? (q : Query) : Option Query := do
  let filters ← q.filters.mapM Predicate.reread?
  let having ← q.having.mapM Predicate.reread?
  return ⟨q.sql, filters, having⟩

theorem legible (depth : Nat) (q : Query) : Legible outline (depth + 6) q.toJson := by
  have tests : ∀ ps : List Predicate,
      LegibleItems (.items Predicate.outline) 0 (depth + 4) (ps.map Predicate.toJson) :=
    fun ps => legibleItems_map Predicate.outline (fun _ => rfl) fun p _ => p.legible depth
  simpa [toJson, outline, Outline.member?, List.lookup] using
    And.intro (tests q.filters) (tests q.having)

theorem ofJson?_reread? (q : Query) : (Json.reread? q.toJson).bind ofJson? = q.reread? := by
  rw [reread?, toJson, ← listOf?_reread? q.filters Predicate.ofJson?_reread?,
    ← listOf?_reread? q.having Predicate.ofJson?_reread?]
  generalize Json.list (q.filters.map Predicate.toJson) = filters
  generalize Json.list (q.having.map Predicate.toJson) = having
  have predicates : Predicate.readWith unitVariant? = Predicate.ofJson? := rfl
  cases again : Json.reread? filters with
  | none => simp [again]
  | some filters' =>
    cases again' : Json.reread? having with
    | none => simp [again, again']
    | some having' =>
      simp [again, again', ofJson?, readWith, shape?, memberNames, Shape.required, List.lookup,
        text?, predicates]

/-- A stored query comes back with its numbers read again. -/
theorem ofPlanText?_planText (q : Query) : ofPlanText? q.planText = q.reread? := by
  rw [ofPlanText?, planText, parseOutline?_render (q.legible 121), ofJson?_reread?]

/-- The numbers of a query are those of its constants. -/
theorem mem_numbers {x : Float} : x ∈ q.numbers ↔
    ∃ p ∈ q.filters ++ q.having, ∃ l ∈ p.operand.literals, l.number? = some x := by
  simp only [numbers, List.mem_flatMap, List.mem_filterMap]

/-- A stored query comes back as it was just if its numbers do. -/
theorem reread?_eq_some_iff : q.reread? = some q ↔ ∀ x ∈ q.numbers, Json.ReadBack x := by
  have parts : q.reread? = some q ↔ q.filters.mapM Predicate.reread? = some q.filters ∧
      q.having.mapM Predicate.reread? = some q.having := by
    obtain ⟨sql, filters, having⟩ := q
    unfold reread?
    cases filters.mapM Predicate.reread? <;> cases having.mapM Predicate.reread? <;> simp
  rw [parts, mapM_eq_some_self_iff, mapM_eq_some_self_iff, ← List.forall_mem_append]
  simp only [Predicate.reread?_eq_some_iff]
  constructor
  · intro h x mem
    obtain ⟨p, hp, l, hl, number⟩ := mem_numbers.mp mem
    exact h p hp l hl x number
  · intro h p hp l hl x number
    exact h x (mem_numbers.mpr ⟨p, hp, l, hl, number⟩)

/-- A stored query comes back only if its numbers are finite. -/
theorem isFinite_of_reread? (h : q.reread?.isSome) :
    ∀ x ∈ q.numbers, Decimal.isFinite x = true := by
  intro x mem
  obtain ⟨p, hp, l, hl, number⟩ := mem_numbers.mp mem
  obtain ⟨again, h⟩ := Option.isSome_iff_exists.mp h
  obtain ⟨filters, hfilters, h⟩ := Option.bind_eq_some_iff.mp h
  obtain ⟨having, hhaving, -⟩ := Option.bind_eq_some_iff.mp h
  have test : p.reread?.isSome :=
    (List.mem_append.mp hp).elim (isSome_of_mapM hfilters) (isSome_of_mapM hhaving)
  rw [Predicate.reread?, Option.isSome_map] at test
  exact Literal.isFinite_of_reread? (Operand.isSome_of_reread? test l hl) x number

end Query

end Cohort
