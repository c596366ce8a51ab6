import Cohort.Decimal.Written
import Cohort.Proofs.Text.Digits

/-!
# The characters of numbers

Numbers are written with digits, signs, a point and the letter of an exponent. So they hold none
of the characters that separate values, and begin like no other value.

## Main definitions

* `Decimal.AllDigits` — all characters are digits
* `Decimal.isNumeral` — the characters of finite numbers
* `Decimal.isNumeralOrName` — these and the letters of the other numbers

## Main results

* `Decimal.writeJson_spec`, `Decimal.toString_spec` — the characters of numbers in JSON
* `Decimal.writeNumber_spec` — the characters of numbers in queries
-/

namespace Cohort.Decimal

/-- The characters of finite numbers. -/
def isNumeral (c : Char) : Bool :=
  c.isDigit || c == '-' || c == '+' || c == '.' || c == 'e'

/-- The characters of finite numbers and the letters of `inf` and `NaN`. -/
def isNumeralOrName (c : Char) : Bool :=
  isNumeral c || c == 'i' || c == 'n' || c == 'f' || c == 'N' || c == 'a'

/-- The text is not empty and has the characters of a finite number. -/
def IsNumeralText (s : String) : Prop := s.toList ≠ [] ∧ s.toList.all isNumeral = true

variable {s s' : String} {cs cs' : List Char}

/-! ## Digits -/

/-- All characters are digits. -/
def AllDigits (cs : List Char) : Prop := ∀ c ∈ cs, c.isDigit = true

theorem AllDigits.append (h : AllDigits cs) (h' : AllDigits cs') : AllDigits (cs ++ cs') :=
  fun c hc => (List.mem_append.mp hc).elim (h c) (h' c)

theorem AllDigits.take (h : AllDigits cs) (n : Nat) : AllDigits (cs.take n) :=
  fun c hc => h c (List.mem_of_mem_take hc)

theorem AllDigits.drop (h : AllDigits cs) (n : Nat) : AllDigits (cs.drop n) :=
  fun c hc => h c (List.mem_of_mem_drop hc)

theorem allDigits_repr (n : Nat) : AllDigits (Nat.repr n).toList :=
  fun _ hc => Text.isDigit_of_mem_repr hc

theorem repr_ne_nil (n : Nat) : (Nat.repr n).toList ≠ [] := by
  rw [Nat.toList_repr]
  exact Nat.toDigits_ne_nil

theorem toList_zeros (n : Nat) : (zeros n).toList = List.replicate n '0' := String.toList_ofList

theorem allDigits_zeros (n : Nat) : AllDigits (zeros n).toList := by
  rw [toList_zeros]
  intro c hc
  rw [List.eq_of_mem_replicate hc]
  decide

/-! ## The characters of numerals -/

theorem isNumeral_of_isDigit {c : Char} (h : c.isDigit = true) : isNumeral c = true := by
  simp [isNumeral, h]

theorem all_isNumeral_append (h : s.toList.all isNumeral = true)
    (h' : s'.toList.all isNumeral = true) : (s ++ s').toList.all isNumeral = true := by
  rw [String.toList_append, List.all_append, h, h', Bool.and_true]

theorem AllDigits.all_isNumeral (h : AllDigits cs) : cs.all isNumeral = true :=
  List.all_eq_true.mpr fun c hc => isNumeral_of_isDigit (h c hc)

theorem all_isNumeral_of_digits (h : AllDigits cs) :
    (String.ofList cs).toList.all isNumeral = true := by
  rw [String.toList_ofList]
  exact h.all_isNumeral

theorem repr_spec (n : Nat) : IsNumeralText (Nat.repr n) :=
  ⟨repr_ne_nil n, (allDigits_repr n).all_isNumeral⟩

theorem all_isNumeral_zeros (n : Nat) : (zeros n).toList.all isNumeral = true :=
  (allDigits_zeros n).all_isNumeral

theorem all_isNumeral_positional (d : Digits) {wholeMark : String}
    (h : wholeMark.toList.all isNumeral = true) :
    (positional d wholeMark).toList.all isNumeral = true := by
  have digits := allDigits_repr d.coefficient
  have point : ".".toList.all isNumeral = true := by decide
  have start : "0.".toList.all isNumeral = true := by decide
  -- The point is behind the digits, between them or in front of them.
  unfold positional
  dsimp only
  split
  · exact all_isNumeral_append
      (all_isNumeral_append (all_isNumeral_of_digits digits) (all_isNumeral_zeros _)) h
  · split
    · exact all_isNumeral_append (all_isNumeral_append
        (all_isNumeral_of_digits (digits.take _)) point) (all_isNumeral_of_digits (digits.drop _))
    · exact all_isNumeral_append (all_isNumeral_append start (all_isNumeral_zeros _))
        (all_isNumeral_of_digits digits)

theorem all_isNumeral_scientific (d : Digits) :
    (scientific d).toList.all isNumeral = true := by
  have digits := allDigits_repr d.coefficient
  have point : ".".toList.all isNumeral = true := by decide
  have fraction : ∀ cs : List Char, AllDigits cs →
      (if cs.isEmpty then "" else "." ++ String.ofList cs).toList.all isNumeral = true := by
    intro cs hcs
    split
    · decide
    · exact all_isNumeral_append point (all_isNumeral_of_digits hcs)
  have sign : ∀ power : Int, (if power < 0 then "e-" else "e+").toList.all isNumeral = true := by
    intro power
    split <;> decide
  unfold scientific
  exact all_isNumeral_append (all_isNumeral_append (all_isNumeral_append
    (all_isNumeral_of_digits (digits.take _)) (fraction _ (digits.drop _))) (sign _))
    (repr_spec _).2

theorem all_isNumeral_signText (negative : Bool) :
    (signText negative).toList.all isNumeral = true := by
  cases negative <;> decide

theorem positional_ne_nil (d : Digits) : (positional d ".0").toList ≠ [] := by
  unfold positional
  dsimp only
  split
  · simp
  · split <;> simp

theorem scientific_ne_nil (d : Digits) : (scientific d).toList ≠ [] := by
  have sign : ∀ power : Int, (if power < 0 then "e-" else "e+").toList ≠ [] := by
    intro power
    split <;> decide
  unfold scientific
  simp only [String.toList_append, ne_eq, List.append_eq_nil_iff, not_and]
  exact fun h => absurd h.2 (sign _)

/-! ## Numbers in JSON -/

/-- A finite number in JSON has the characters of one. -/
theorem writeJson_spec {x : Float} (finite : isFinite x = true) : IsNumeralText (writeJson x) := by
  have signed : ∀ (negative : Bool) (s : String), IsNumeralText s →
      IsNumeralText (signText negative ++ s) := by
    intro negative s hs
    refine ⟨?_, all_isNumeral_append (all_isNumeral_signText negative) hs.2⟩
    rw [String.toList_append]
    exact List.append_ne_nil_of_right_ne_nil _ hs.1
  -- Zero, a number with all its digits, or one with a power of ten.
  unfold isFinite at finite
  unfold writeJson
  split at finite
  · next negative magnitude exponent hx =>
    rw [hx]
    split
    · next h =>
      exact signed _ "0.0" ⟨by decide, by decide⟩
    · dsimp only
      refine signed _ _ ?_
      split
      · exact ⟨positional_ne_nil _, all_isNumeral_positional _ (by decide)⟩
      · exact ⟨scientific_ne_nil _, all_isNumeral_scientific _⟩
    · next h => exact absurd rfl (h _ _ _)
  · cases finite

/-- An integer has the characters of a finite number. -/
theorem toString_spec (i : Int) : IsNumeralText (toString i) := by
  rw [Int.toString_eq_repr, Int.repr_eq_if]
  split
  · exact repr_spec _
  · have minus : "-".toList.all isNumeral = true := by decide
    exact ⟨by simp, all_isNumeral_append minus (repr_spec _).2⟩

/-! ## Numbers in queries -/

theorem isNumeralOrName_of_isNumeral {c : Char} (h : isNumeral c = true) :
    isNumeralOrName c = true := by
  simp [isNumeralOrName, h]

/-- A number in a query has the characters of one. -/
theorem writeNumber_spec (x : Float) : (writeNumber x).toList.all isNumeralOrName = true := by
  have numeral : ∀ s : String, s.toList.all isNumeral = true →
      s.toList.all isNumeralOrName = true := fun s hs =>
    List.all_eq_true.mpr fun c hc => isNumeralOrName_of_isNumeral (List.all_eq_true.mp hs c hc)
  have signed : ∀ (negative : Bool) (s : String), s.toList.all isNumeralOrName = true →
      (signText negative ++ s).toList.all isNumeralOrName = true := by
    intro negative s hs
    rw [String.toList_append, List.all_append, hs, Bool.and_true]
    exact numeral _ (all_isNumeral_signText negative)
  unfold writeNumber
  split
  · exact numeral _ (toString_spec _).2
  · unfold writePlain
    split
    · exact signed _ "0" (by decide)
    · exact signed _ _ (numeral _ (all_isNumeral_positional _ (by decide)))
    · exact signed _ "inf" (by decide)
    · decide

end Cohort.Decimal
