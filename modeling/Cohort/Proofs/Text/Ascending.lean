import Mathlib.Data.String.Basic
import Cohort.Sorting

/-!
# Texts in ascending order

Where it should not matter in which order things are given, or how often, they are sorted by their
texts and each text is kept once. The texts that stay are in strictly ascending order, so they are
determined by which texts there are.

## Main results

* `pairwise_texts` — what is sorted by texts and freed of repetitions ascends strictly
-/

namespace Cohort.Text

/-- Sorted by their texts, and without those that repeat the text before them, things have texts
in strictly ascending order. -/
theorem pairwise_texts {α : Type} (text : α → String) (l : List α) :
    (((sortBy (fun a b => !decide (text b < text a)) l).eraseRepsBy
      fun a b => text a == text b).map text).Pairwise (· < ·) := by
  have not_after : ∀ a b : α, (!decide (text b < text a)) = true ↔ text a ≤ text b := by
    intro a b
    rw [Bool.not_eq_true', decide_eq_false_iff_not, not_lt]
  have sorted : (sortBy (fun a b => !decide (text b < text a)) l).Pairwise
      fun a b => text a ≤ text b := by
    apply (pairwise_sortBy _ _ l).imp fun {a b} => (not_after a b).mp
    · intro a b
      rw [not_after, not_after]
      exact le_total (text a) (text b)
    · intro a b c
      rw [not_after, not_after, not_after]
      exact le_trans
  have strict : ∀ a b : α, text a ≤ text b → (text a == text b) = false → text a < text b := by
    intro a b before different
    exact lt_of_le_of_ne before (by simpa using different)
  have trans : ∀ a b c : α, text a < text b → text b ≤ text c → text a < text c :=
    fun _ _ _ => lt_of_lt_of_le
  exact List.pairwise_map.mpr (pairwise_eraseRepsBy strict trans sorted)

end Cohort.Text
