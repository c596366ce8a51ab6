import Cohort.Condition.Key
import Cohort.Proofs.Decimal.Characters
import Cohort.Proofs.Json.Quoted
import Cohort.Proofs.Text.Separated
import Cohort.Proofs.Text.Trim

/-!
# Canonical spelling

The canonical text of a value begins with a quote if it is a text, with a digit or a sign if it
is a number, and with another character otherwise. So values with one canonical text are of one
kind, and the items of a list can be told apart as long as they are texts or numbers.

## Main definitions

* `Json.number?` — the number that a value is, if it is one
* `Json.IsScalar` — the value is a text or a number
* `Json.IsExact` — the value is not one of the doubles that JSON has no numbers for

## Main results

* `Condition.canonicalText_cases` — what the canonical text of a value looks like
* `Condition.sortedTexts_inj` — lists with one canonical text have the same items
* `Operator.parse?_canonicalOperator` — the canonical spelling of an operator is read as itself
-/

namespace Cohort

/-! ## Operators -/

namespace Text

/-- Blanks in front of a text are not part of its words. -/
theorem wordsFrom_dropWhile (cs : List Char) :
    wordsFrom [] (cs.dropWhile isBlank) = wordsFrom [] cs := by
  induction cs with
  | nil => rfl
  | cons c rest ih =>
    by_cases hc : isBlank c = true
    · rw [List.dropWhile_cons_of_pos hc, ih, wordsFrom, if_pos hc]
      rfl
    · rw [List.dropWhile_cons_of_neg hc]

/-- Blanks behind a text are not part of its words. -/
theorem wordsFrom_append_blanks {blanks : List Char} (h : ∀ c ∈ blanks, isBlank c = true)
    (current cs : List Char) : wordsFrom current (cs ++ blanks) = wordsFrom current cs := by
  have only_blanks : ∀ current, wordsFrom current blanks = wordsFrom current [] := by
    induction blanks with
    | nil => exact fun _ => rfl
    | cons b rest ih =>
      obtain ⟨hb, hrest⟩ := List.forall_mem_cons.mp h
      intro current
      cases current with
      | nil =>
        simp only [wordsFrom, if_pos hb]
        exact ih hrest []
      | cons c more =>
        simp only [wordsFrom, if_pos hb, ih hrest]
        rfl
  induction cs generalizing current with
  | nil => exact only_blanks current
  | cons c rest ih =>
    simp only [List.cons_append, wordsFrom, ih]

/-- A trimmed text has the same words. -/
theorem words_trim (s : String) : words (trim s) = words s := by
  obtain ⟨blanks, split, only_blanks⟩ := trimStartChars_eq_append s.toList
  have same : wordsFrom [] (trimChars s.toList) = wordsFrom [] s.toList := by
    rw [← wordsFrom_dropWhile s.toList]
    change _ = wordsFrom [] (trimStartChars s.toList)
    rw [split, wordsFrom_append_blanks only_blanks]
  rw [words, words, trim, String.toList_ofList, same]

end Text

theorem Operator.parse?_symbol (operator : Operator) :
    parse? operator.symbol = some operator := by
  cases operator <;> decide

/-- The canonical spelling of an operator is read as the operator itself. -/
theorem Operator.parse?_canonicalOperator (raw : String) :
    parse? (Condition.canonicalOperator raw) = parse? raw := by
  unfold Condition.canonicalOperator
  split
  · next operator found => rw [parse?_symbol, found]
  · next unknown =>
    rw [unknown]
    rw [parse?, normalForm] at unknown ⊢
    rw [Text.words_trim]
    exact unknown

/-! ## Values -/

/-- The number that a value is, if it is one. -/
def Json.number? : Json → Option Float
  | .int i => some (Decimal.ofWhole i)
  | .float x => some x
  | _ => none

/-- The value is a text or a number. -/
def Json.IsScalar (j : Json) : Prop := (∃ s, j = .text s) ∨ ∃ x, j.number? = some x

/-- The value is not one of the doubles for which JSON has no numbers. -/
def Json.IsExact (j : Json) : Prop := ∀ x, j = .float x → Decimal.isFinite x = true

instance (j : Json) : Decidable j.IsExact :=
  match j with
  | .float x => decidable_of_iff (Decimal.isFinite x = true) (by simp [Json.IsExact])
  | .null | .bool _ | .int _ | .text _ | .list _ | .object _ => isTrue fun _ h => by cases h

namespace Condition

open Decimal (isNumeral IsNumeralText)

/-- The canonical text of a value shows whether it is a text, a number or something else. -/
theorem canonicalText_cases {j : Json} (exact : j.IsExact) :
    (∃ s, j = .text s ∧ (canonicalText j).toList = Json.renderText s) ∨
      ((∃ x, j.number? = some x) ∧ IsNumeralText (canonicalText j)) ∨
      ((j.text? = none ∧ j.number? = none) ∧
        ∃ c more, (canonicalText j).toList = c :: more ∧ c ≠ '"' ∧ isNumeral c = false) := by
  cases j with
  | text s => exact .inl ⟨s, rfl, String.toList_ofList⟩
  | int i => exact .inr (.inl ⟨⟨_, rfl⟩, Decimal.toString_spec i⟩)
  | float x =>
    refine .inr (.inl ⟨⟨x, rfl⟩, ?_⟩)
    rw [canonicalText]
    split
    · exact Decimal.toString_spec _
    · exact Decimal.writeJson_spec (exact x rfl)
  | null => exact .inr (.inr ⟨⟨rfl, rfl⟩, 'n', ['u', 'l', 'l'], by decide, by decide, by decide⟩)
  | bool b =>
    cases b
    · exact .inr (.inr ⟨⟨rfl, rfl⟩, 'f', ['a', 'l', 's', 'e'], by decide, by decide, by decide⟩)
    · exact .inr (.inr ⟨⟨rfl, rfl⟩, 't', ['r', 'u', 'e'], by decide, by decide, by decide⟩)
  | list items =>
    have begins : (canonicalText (.list items)).toList =
        '[' :: ((",".intercalate (canonicalItems items)).toList ++ [']']) := by
      rw [canonicalText, String.toList_append, String.toList_append]
      rfl
    exact .inr (.inr ⟨⟨rfl, rfl⟩, _, _, begins, by decide, by decide⟩)
  | object members =>
    have begins : (canonicalText (.object members)).toList =
        '\x7b' :: (Json.memberChars members ++ ['\x7d']) := by
      rw [canonicalText, Json.render, String.toList_ofList, Json.chars]
      rfl
    exact .inr (.inr ⟨⟨rfl, rfl⟩, _, _, begins, by decide, by decide⟩)

/-- A text begins with a quote, and no number does. -/
theorem renderText_ne_numeral {s t : String} {rest rest' : List Char} (h : IsNumeralText t) :
    Json.renderText s ++ rest ≠ t.toList ++ rest' := by
  obtain ⟨nonempty, numeral⟩ := h
  cases ht : t.toList with
  | nil => exact absurd ht nonempty
  | cons c more =>
    intro same
    rw [ht, List.all_cons, Bool.and_eq_true] at numeral
    have first : '"' = c := (List.cons.inj same).1
    rw [← first] at numeral
    exact absurd numeral.1 (by decide)

/-- Nothing follows an item, or a comma. -/
def EndsItem (rest : List Char) : Prop := ∀ c more, rest = c :: more → c = ','

/-- Two values of which the first is a text or a number have one canonical text, or one at the
beginning of a longer one, only if they are texts that are the same or numbers. -/
theorem canonicalText_append_inj {j j' : Json} {rest rest' : List Char} (exact : j.IsExact)
    (exact' : j'.IsExact) (scalar : j.IsScalar)
    (ends : EndsItem rest) (ends' : EndsItem rest')
    (h : (canonicalText j).toList ++ rest = (canonicalText j').toList ++ rest') :
    (canonicalText j = canonicalText j' ∧ rest = rest') ∧
      ((∃ s, j = .text s ∧ j' = .text s) ∨
        ∃ x x', j.number? = some x ∧ j'.number? = some x') := by
  rcases canonicalText_cases exact with ⟨s, rfl, text⟩ | ⟨⟨x, number⟩, numeral⟩ |
    ⟨⟨no_text, no_number⟩, -⟩
  · rw [text] at h
    rcases canonicalText_cases exact' with ⟨s', rfl, text'⟩ | ⟨-, numeral'⟩ |
      ⟨-, c, more, begins, quote, -⟩
    · rw [text'] at h
      obtain ⟨rfl, rests⟩ := Json.renderText_append_inj h
      exact ⟨⟨rfl, rests⟩, .inl ⟨s, rfl, rfl⟩⟩
    · exact absurd h (renderText_ne_numeral numeral')
    · rw [begins] at h
      exact absurd (List.cons.inj h).1.symm quote
  · rcases canonicalText_cases exact' with ⟨s', rfl, text'⟩ | ⟨⟨x', number'⟩, numeral'⟩ |
      ⟨-, c, more, begins, -, other⟩
    · rw [text'] at h
      exact absurd h.symm (renderText_ne_numeral numeral)
    · -- A number ends before a comma.
      have no_stop : ∀ {t : String}, IsNumeralText t → ∀ c ∈ t.toList, (!isNumeral c) = false :=
        fun ht c hc => by simpa using List.all_eq_true.mp ht.2 c hc
      have stops : ∀ {r : List Char}, EndsItem r →
          ∀ c more, r = c :: more → (!isNumeral c) = true := by
        intro r hr c more hc
        rw [hr c more hc]
        decide
      obtain ⟨same, rests⟩ := Text.append_inj_of_stop (no_stop numeral) (no_stop numeral')
        (stops ends) (stops ends') h
      exact ⟨⟨String.toList_inj.mp same, rests⟩, .inr ⟨x, x', number, number'⟩⟩
    · -- A number begins with a character of a number.
      obtain ⟨nonempty, all⟩ := numeral
      cases ht : (canonicalText j).toList with
      | nil => exact absurd ht nonempty
      | cons d more' =>
        rw [ht, begins] at h
        rw [ht, List.all_cons, Bool.and_eq_true, (List.cons.inj h).1, other] at all
        cases all.1
  · rcases scalar with ⟨s, rfl⟩ | ⟨x, number⟩
    · cases no_text
    · rw [no_number] at number
      cases number

/-! ## Lists -/

theorem mem_canonicalItems {text : String} {items : List Json} :
    text ∈ canonicalItems items ↔ ∃ j ∈ items, canonicalText j = text := by
  induction items with
  | nil => simp [canonicalItems]
  | cons j rest ih => simp [canonicalItems, ih, eq_comm]

theorem mem_sortedTexts {text : String} {texts : List String} :
    text ∈ sortedTexts texts ↔ text ∈ texts := by
  rw [sortedTexts, mem_eraseReps, mem_sortBy]

/-- The canonical text of a text or a number is not empty. -/
theorem canonicalText_ne_nil {j : Json} (exact : j.IsExact)
    (scalar : j.IsScalar) : (canonicalText j).toList ≠ [] := by
  rcases canonicalText_cases exact with ⟨s, rfl, text⟩ | ⟨-, numeral⟩ | ⟨⟨no_text, no_number⟩, -⟩
  · rw [text, Json.renderText]
    exact List.append_ne_nil_of_right_ne_nil _ (List.cons_ne_nil _ _)
  · exact numeral.1
  · rcases scalar with ⟨s, rfl⟩ | ⟨x, number⟩
    · cases no_text
    · rw [no_number] at number
      cases number

/-- The characters are those of a text or a number in a list. -/
def IsScalarText (cs : List Char) : Prop :=
  ∃ j : Json, j.IsExact ∧ j.IsScalar ∧ (canonicalText j).toList = cs

/-- The characters are those of a value in a list. -/
def IsItemText (cs : List Char) : Prop := ∃ j : Json, j.IsExact ∧ (canonicalText j).toList = cs

/-- Lists of alternatives with one canonical text have items with the same canonical texts, if
the items of one of them are texts or numbers. -/
theorem sortedTexts_inj {items items' : List Json} (some_items : items ≠ [])
    (exact : ∀ j ∈ items, j.IsExact) (exact' : ∀ j ∈ items', j.IsExact)
    (scalar : ∀ j ∈ items, j.IsScalar)
    (h : ",".intercalate (sortedTexts (canonicalItems items)) =
      ",".intercalate (sortedTexts (canonicalItems items'))) :
    ∀ text, text ∈ canonicalItems items ↔ text ∈ canonicalItems items' := by
  -- Only the items of the first list are known to be texts or numbers.
  have apart : ∀ a b rest rest', IsScalarText a → IsItemText b → EndsItem rest → EndsItem rest' →
      a ++ rest = b ++ rest' → a = b ∧ rest = rest' := by
    rintro _ _ rest rest' ⟨j, hj, scalar, rfl⟩ ⟨j', hj', rfl⟩ ends ends' same
    obtain ⟨⟨texts, rests⟩, -⟩ := canonicalText_append_inj hj hj' scalar ends ends' same
    exact ⟨congrArg String.toList texts, rests⟩
  have ends_nil : EndsItem [] := fun c more hc => absurd hc (List.cons_ne_nil _ _).symm
  have ends_comma : ∀ rest, EndsItem (",".toList ++ rest) := fun rest c more hc =>
    (List.cons.inj hc).1.symm
  have scalars : ∀ cs ∈ (sortedTexts (canonicalItems items)).map String.toList,
      IsScalarText cs := by
    refine List.forall_mem_map.mpr fun text htext => ?_
    obtain ⟨j, hj, rfl⟩ := mem_canonicalItems.mp (mem_sortedTexts.mp htext)
    exact ⟨j, exact j hj, scalar j hj, rfl⟩
  have others : ∀ cs ∈ (sortedTexts (canonicalItems items')).map String.toList, IsItemText cs := by
    refine List.forall_mem_map.mpr fun text htext => ?_
    obtain ⟨j, hj, rfl⟩ := mem_canonicalItems.mp (mem_sortedTexts.mp htext)
    exact ⟨j, exact' j hj, rfl⟩
  have some_texts : (sortedTexts (canonicalItems items)).map String.toList ≠ [] := by
    obtain ⟨j, hj⟩ := List.exists_mem_of_ne_nil _ some_items
    have there : canonicalText j ∈ sortedTexts (canonicalItems items) :=
      mem_sortedTexts.mpr (mem_canonicalItems.mpr ⟨j, hj, rfl⟩)
    exact List.ne_nil_of_mem (List.mem_map.mpr ⟨_, there, rfl⟩)
  have chars := congrArg String.toList h
  rw [String.toList_intercalate, String.toList_intercalate] at chars
  -- The other list has items too, as the text of an item is not empty.
  have some_texts' : (sortedTexts (canonicalItems items')).map String.toList ≠ [] := by
    intro none_there
    rw [none_there, List.intercalate_nil] at chars
    obtain ⟨cs, more, hcs⟩ := List.exists_cons_of_ne_nil some_texts
    obtain ⟨j, hj, scalar_j, rfl⟩ := scalars cs (hcs ▸ List.mem_cons_self)
    rw [hcs] at chars
    cases more with
    | nil =>
      rw [List.intercalate_singleton] at chars
      exact canonicalText_ne_nil hj scalar_j chars
    | cons next more =>
      rw [List.intercalate_cons_cons, List.append_assoc] at chars
      exact canonicalText_ne_nil hj scalar_j (List.append_eq_nil_iff.mp chars).1
  have same := Text.intercalate_inj (by decide) apart ends_nil ends_comma _ _ some_texts
    some_texts' scalars others chars
  have same_texts := (List.map_inj_right fun _ _ => String.toList_inj.mp).mp same
  intro text
  rw [← mem_sortedTexts, same_texts, mem_sortedTexts]

end Condition

end Cohort
