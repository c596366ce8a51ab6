import Mathlib.Data.List.Sort
import Cohort.Proofs.Condition.Spelling
import Cohort.Proofs.Cover.Presentation
import Cohort.Proofs.Text.Ascending

/-!
# Conditions in other spellings

People write one condition in many ways: with other blanks and capitals, with another name of the
operator, with the alternatives of a list in another order. The key of a condition is the same in
all of these spellings, so neither the comparison of rules nor the search for a cover depends on
how the conditions were written.

## Main definitions

* `Condition.SpelledAlike` — conditions that differ only in their spelling
* `Cover.SpelledAlike` — covers that differ only in the spelling of what they leave

## Main results

* `Condition.sortedTexts_eq_iff` — a list of alternatives is given by which texts it has
* `Condition.SpelledAlike.key_eq` — the key of a condition is the same in all spellings
* `Cover.find?_of_respelled` — so are the sets of keys, and the cover that is found
-/

namespace Cohort

variable {c d : Condition} {conditions conditions' : List Condition}

/-! ## Keys -/

namespace Condition

/-- The conditions differ only in their spelling: in blanks around the field and in its case, in
which text names the operator, or in the order and repetition of the alternatives of a list. -/
structure SpelledAlike (c d : Condition) : Prop where
  field : c.field.map Field.normalForm = d.field.map Field.normalForm
  operator : c.operator = d.operator ∨
    ∃ op, c.parsedOperator? = some op ∧ d.parsedOperator? = some op
  value : c.value = d.value ∨ ∃ op items items', c.parsedOperator? = some op ∧
    op.takesList = true ∧ c.value = some (.list items) ∧ d.value = some (.list items') ∧
      ∀ text, text ∈ items.map canonicalText ↔ text ∈ items'.map canonicalText
  upper : c.upper = d.upper

theorem SpelledAlike.refl (c : Condition) : SpelledAlike c c := ⟨rfl, .inl rfl, .inl rfl, rfl⟩

theorem canonicalItems_eq_map (items : List Json) :
    canonicalItems items = items.map canonicalText := by
  induction items with
  | nil => rfl
  | cons j rest ih => rw [canonicalItems, ih, List.map_cons]

/-- Neither order nor repetition matters for the sorted texts. -/
theorem sortedTexts_eq_iff {texts texts' : List String} :
    sortedTexts texts = sortedTexts texts' ↔ ∀ text, text ∈ texts ↔ text ∈ texts' := by
  constructor
  · intro same text
    rw [← mem_sortedTexts, same, mem_sortedTexts]
  · intro same
    have ascending : ∀ texts, (sortedTexts texts).Pairwise (· < ·) := by
      intro texts
      have mapped := Text.pairwise_texts id texts
      rwa [List.map_id] at mapped
    apply (ascending texts).eq_of_mem_iff (ascending texts')
    intro text
    rw [mem_sortedTexts, mem_sortedTexts, same]

theorem SpelledAlike.parsedOperator?_eq (alike : SpelledAlike c d) :
    c.parsedOperator? = d.parsedOperator? := by
  rcases alike.operator with same | ⟨op, hc, hd⟩
  · rw [parsedOperator?, parsedOperator?, same]
  · rw [hc, hd]

/-- The canonical spelling of an operator shows nothing but which one is meant. -/
theorem map_canonicalOperator {op : Operator} (h : c.parsedOperator? = some op) :
    c.operator.map canonicalOperator = some op.symbol := by
  obtain ⟨raw, present, parsed⟩ := Option.bind_eq_some_iff.mp h
  rw [present, Option.map_some, canonicalOperator, parsed]

/-- The key of a condition is the same in all spellings. -/
theorem SpelledAlike.key_eq (alike : SpelledAlike c d) : c.key = d.key := by
  have operators : c.operator.map canonicalOperator = d.operator.map canonicalOperator := by
    rcases alike.operator with same | ⟨op, hc, hd⟩
    · rw [same]
    · rw [map_canonicalOperator hc, map_canonicalOperator hd]
  have values : c.value.map (canonicalValue c.parsedOperator?) =
      d.value.map (canonicalValue d.parsedOperator?) := by
    rw [← alike.parsedOperator?_eq]
    rcases alike.value with same | ⟨op, items, items', hop, takes, hc, hd, same⟩
    · rw [same]
    · have texts : sortedTexts (canonicalItems items) = sortedTexts (canonicalItems items') := by
        rw [canonicalItems_eq_map, canonicalItems_eq_map]
        exact sortedTexts_eq_iff.mpr same
      have list : (some op).any Operator.takesList = true := takes
      rw [hc, hd, hop, Option.map_some, Option.map_some, canonicalValue, canonicalValue,
        if_pos list, if_pos list, texts]
  rw [key, key, alike.field, operators, values, alike.upper]

theorem map_key_of_respelled (alike : List.Forall₂ SpelledAlike conditions conditions') :
    conditions.map key = conditions'.map key := by
  induction alike with
  | nil => rfl
  | cons first _ ih => rw [List.map_cons, List.map_cons, first.key_eq, ih]

end Condition

/-! ## Covers -/

namespace Cover

/-- The covers make use of the same rules, and leave the same conditions in two spellings. -/
structure SpelledAlike (a b : Cover) : Prop where
  dependencies : a.dependencies = b.dependencies
  residual : List.Forall₂ Condition.SpelledAlike a.residual b.residual

/-- The same places are left of both lists. -/
theorem firstOfEach_of_respelled
    (alike : List.Forall₂ Condition.SpelledAlike conditions conditions') (wanted : KeySet)
    (seen : List Condition.Key) :
    List.Forall₂ Condition.SpelledAlike (firstOfEach wanted seen conditions)
      (firstOfEach wanted seen conditions') := by
  induction alike generalizing seen with
  | nil => exact .nil
  | cons first _ ih =>
    rw [firstOfEach, firstOfEach, first.key_eq]
    split
    · exact .cons first (ih _)
    · exact ih _

/-- Conditions that are spelled alike have one key, so lists of them have one set of keys. Against
any rules, and whichever of them are excluded, a cover is found for both of them or for neither,
and the covers differ at most in the spelling of the conditions that they leave. -/
theorem find?_of_respelled :
    (∀ c d : Condition, c.SpelledAlike d → c.key = d.key) ∧
      ∀ conditions conditions' : List Condition,
        List.Forall₂ Condition.SpelledAlike conditions conditions' →
          KeySet.ofConditions conditions = KeySet.ofConditions conditions' ∧
            ∀ rules excluded, Option.Rel SpelledAlike (find? conditions rules excluded)
              (find? conditions' rules excluded) := by
  refine ⟨fun c d alike => alike.key_eq, fun conditions conditions' alike => ?_⟩
  have same : KeySet.ofConditions conditions = KeySet.ofConditions conditions' := by
    rw [KeySet.ofConditions, KeySet.ofConditions, Condition.map_key_of_respelled alike]
  refine ⟨same, fun rules excluded => ?_⟩
  -- From here on, only what is left is written in two ways.
  rw [find?, find?, same]
  dsimp only
  split
  · exact .none
  · split
    · exact .none
    · exact .some ⟨rfl, firstOfEach_of_respelled alike _ _⟩

private def amountsAndTier : List Condition :=
  [.of "amount" "NOT IN" (.list [.int 1, .int 2, .int 3, .int 3]), .of "city_tier" "=" (.int 1)]

/-- The same conditions with other blanks, capitals and symbols, and a list in another order. -/
private def amountsAndTierAgain : List Condition :=
  [.of "\u3000Amount\u00a0" "not \u2003 in" (.list [.float 3.0, .int 1, .int 2]),
    .of " CITY_TIER" "==" (.int 1)]

private theorem amountsAndTier_respelled :
    List.Forall₂ Condition.SpelledAlike amountsAndTier amountsAndTierAgain := by
  have amounts : ∀ text,
      text ∈ [Json.int 1, .int 2, .int 3, .int 3].map Condition.canonicalText ↔
        text ∈ [Json.float 3.0, .int 1, .int 2].map Condition.canonicalText := by
    have texts : [Json.float 3.0, .int 1, .int 2].map Condition.canonicalText =
        ["3", "1", "2"] := by decide +kernel
    have texts' : [Json.int 1, .int 2, .int 3, .int 3].map Condition.canonicalText =
        ["1", "2", "3", "3"] := by decide +kernel
    intro text
    rw [texts, texts']
    simp only [List.mem_cons, List.not_mem_nil, or_false]
    tauto
  apply List.Forall₂.cons
  · exact ⟨by decide +kernel, .inr ⟨.notIn, by decide +kernel, by decide +kernel⟩,
      .inr ⟨.notIn, _, _, by decide +kernel, rfl, rfl, rfl, amounts⟩, rfl⟩
  · apply List.Forall₂.cons _ .nil
    exact ⟨by decide +kernel, .inr ⟨.eq, by decide +kernel, by decide +kernel⟩, .inl rfl, rfl⟩

/-- A rule for the tier covers both spellings, and leaves the list as it was written. -/
theorem find?_of_respelled_blanks :
    amountsAndTier.map Condition.key = amountsAndTierAgain.map Condition.key ∧
      find? amountsAndTier [.plain 1 [.of "city_tier" "=" (.int 1)]] [] =
        some ⟨[.ofNat 1], amountsAndTier.take 1⟩ ∧
      Option.Rel SpelledAlike (find? amountsAndTier [.plain 1 [.of "city_tier" "=" (.int 1)]] [])
        (find? amountsAndTierAgain [.plain 1 [.of "city_tier" "=" (.int 1)]] []) := by
  obtain ⟨key_eq, sets⟩ := find?_of_respelled
  refine ⟨?_, by decide +kernel, (sets _ _ amountsAndTier_respelled).2 _ _⟩
  cases amountsAndTier_respelled with
  | cons amounts rest =>
    cases rest with
    | cons tier =>
      rw [amountsAndTier, amountsAndTierAgain, List.map_cons, List.map_cons, key_eq _ _ amounts,
        List.map_cons, List.map_cons, key_eq _ _ tier]

end Cover

end Cohort
