import Cohort.RuleId

/-!
# Digits

The decimal digits of a natural number determine it, so that the texts of identifiers do as well.

## Main results

* `Text.repr_injective`, `Text.toString_injective` — different numbers have different texts
* `RuleId.text_injective` — different identifiers have different texts
-/

namespace Cohort

namespace Text

/-- Different numbers have different texts. -/
theorem repr_injective : Function.Injective Nat.repr := by
  intro m n h
  have same_digits : Nat.toDigits 10 m = Nat.toDigits 10 n := by
    rw [← Nat.toList_repr, ← Nat.toList_repr, h]
  have read_back := congrArg (fun cs => Nat.ofDigitChars 10 cs 0) same_digits
  simpa only [Nat.ofDigitChars_ten_toDigits] using read_back

theorem isDigit_of_mem_repr {n : Nat} {c : Char} (h : c ∈ (Nat.repr n).toList) :
    c.isDigit = true := by
  rw [Nat.toList_repr] at h
  exact Nat.isDigit_of_mem_toDigits (by decide) (by decide) h

/-- Different integers have different texts. -/
theorem toString_injective : Function.Injective (toString : Int → String) := by
  -- A minus sign is not a digit, so it tells the integers below zero.
  have no_sign : ∀ n body, Nat.repr n ≠ "-" ++ body := by
    intro n body same
    have sign : '-' ∈ (Nat.repr n).toList := by
      rw [same, String.toList_append]
      exact List.mem_append_left _ (by decide)
    exact absurd (isDigit_of_mem_repr sign) (by decide)
  intro i j same
  rw [Int.toString_eq_repr, Int.toString_eq_repr, Int.repr_eq_if, Int.repr_eq_if] at same
  split at same <;> split at same
  · have size := repr_injective same
    omega
  · exact absurd same (no_sign _ _)
  · exact absurd same.symm (no_sign _ _)
  · have size := repr_injective (String.append_right_inj _ |>.mp same)
    omega

end Text

/-- Different identifiers have different texts. -/
theorem RuleId.text_injective : Function.Injective RuleId.text :=
  fun _ _ h => RuleId.toNat_inj.mp (Text.repr_injective h)

end Cohort
