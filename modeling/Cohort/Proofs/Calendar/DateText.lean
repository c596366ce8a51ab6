import Mathlib.Algebra.Group.Nat.Defs
import Cohort.Calendar.Date
import Cohort.Proofs.Text.Digits

/-!
# The text of a date

Months and days are written with two digits, and the sign of a year shows how it is written. So a
date is read back from its text, and different dates have different texts.

## Main results

* `Calendar.readYear?_yearText`, `Calendar.readSmall?_padded` — the parts of a date are read back
* `Date.parseLoose?_text` — a date is read back
* `Date.text_injective` — different dates have different texts
-/

namespace Cohort

namespace Calendar

theorem toList_padded (width n : Nat) : (padded width n).toList =
    List.replicate (width - (Nat.repr n).toList.length) '0' ++ (Nat.repr n).toList :=
  String.toList_ofList

theorem isDigit_of_mem_padded {width n : Nat} {c : Char} (h : c ∈ (padded width n).toList) :
    c.isDigit = true := by
  rw [toList_padded] at h
  rcases List.mem_append.mp h with h | h
  · rw [List.eq_of_mem_replicate h]
    decide
  · exact Text.isDigit_of_mem_repr h

/-- Leading zeros do not change the number that is read. -/
theorem digitsValue_padded (width n : Nat) : digitsValue (padded width n).toList = n := by
  have value : Nat.ofDigitChars 10 (padded width n).toList 0 = n := by
    rw [toList_padded, Nat.ofDigitChars_append, Nat.ofDigitChars_replicate_zero, Nat.mul_zero,
      Nat.toList_repr, Nat.ofDigitChars_ten_toDigits]
  exact value

/-- Numbers that are small enough fill the width exactly. -/
theorem length_padded {width n : Nat} (positive : 0 < width) (small : n < 10 ^ width) :
    (padded width n).toList.length = width := by
  have short : (Nat.repr n).toList.length ≤ width := by
    rw [Nat.toList_repr]
    exact (Nat.length_toDigits_le_iff (by decide) positive).mpr small
  rw [toList_padded, List.length_append, List.length_replicate]
  omega

/-! ## Reading the text back -/

variable {digits rest : List Char} {least most : Nat} {c : Char}

/-- A run of digits is read up to its end, or up to the most digits that are read. -/
theorem readDigits?_append (all : ∀ c ∈ digits, c.isDigit = true) (enough : least ≤ digits.length)
    (few : digits.length ≤ most)
    (ends : digits.length = most ∨ ∀ c ∈ rest.head?, c.isDigit = false) :
    readDigits? least most (digits ++ rest) = some (digitsValue digits, rest) := by
  have run : ((digits ++ rest).take most).takeWhile Char.isDigit = digits := by
    obtain ⟨more, rfl⟩ := Nat.exists_eq_add_of_le few
    rw [List.take_length_add_append, List.takeWhile_append_of_pos all]
    rcases ends with full | ends
    · obtain rfl : more = 0 := by omega
      simp
    · cases rest with
      | nil => simp
      | cons c rest =>
        have stop : c.isDigit = false := ends c rfl
        cases more <;> simp [stop]
  unfold readDigits?
  simp only [run, if_neg (Nat.not_lt.mpr enough), List.drop_left]

theorem padded_length_pos (width n : Nat) : 1 ≤ (padded width n).toList.length := by
  rw [toList_padded, Nat.toList_repr, List.length_append]
  have present := List.length_pos_iff.mpr (Nat.toDigits_ne_nil (b := 10) (n := n))
  omega

theorem skipBlanks_cons (visible : Text.isBlank c = false) : skipBlanks (c :: rest) = c :: rest := by
  simp [skipBlanks, visible]

theorem isBlank_of_isDigit (digit : c.isDigit = true) : Text.isBlank c = false := by
  simp only [Char.isDigit, Bool.and_eq_true, decide_eq_true_eq] at digit
  have low : 48 ≤ c.toNat := digit.1
  have high : c.toNat ≤ 57 := digit.2
  simp only [Text.isBlank, Bool.or_eq_false_iff, Bool.and_eq_false_imp, decide_eq_true_eq,
    decide_eq_false_iff_not, beq_eq_false_iff_ne]
  omega

theorem skipBlanks_padded (width n : Nat) :
    skipBlanks ((padded width n).toList ++ rest) = (padded width n).toList ++ rest := by
  obtain ⟨c, more, written⟩ := List.exists_cons_of_length_pos (padded_length_pos width n)
  rw [written]
  exact skipBlanks_cons (isBlank_of_isDigit (isDigit_of_mem_padded (written ▸ List.mem_cons_self)))

theorem readSmall?_padded {n : Nat} (small : n < 100) :
    readSmall? ((padded 2 n).toList ++ rest) = some (n, rest) := by
  have two : (padded 2 n).toList.length = 2 := length_padded (by decide) small
  rw [readSmall?, skipBlanks_padded, readDigits?_append (fun _ => isDigit_of_mem_padded)
    (by omega) (by omega) (.inl two), digitsValue_padded]

theorem readYear?_digit (digit : c.isDigit = true) :
    readYear? (c :: rest) =
      (readDigits? 1 4 (c :: rest)).map fun (n, r) => ((n : Int), r) := by
  rw [readYear?, skipBlanks_cons (isBlank_of_isDigit digit)]
  split
  · next same =>
    rw [(List.cons.inj same).1] at digit
    exact absurd digit (by decide)
  · next same =>
    rw [(List.cons.inj same).1] at digit
    exact absurd digit (by decide)
  · rfl

/-- A year is read back where a hyphen follows. -/
theorem readYear?_yearText (year : Int) :
    readYear? ((yearText year).toList ++ '-' :: rest) = some (year, '-' :: rest) := by
  have hyphen : ∀ c ∈ ('-' :: rest).head?, c.isDigit = false := by simp
  -- Behind a sign the digits are read up to the hyphen.
  have signed : ∀ n, readDigits? 1 ((padded 4 n).toList ++ '-' :: rest).length
      ((padded 4 n).toList ++ '-' :: rest) = some (n, '-' :: rest) := by
    intro n
    rw [readDigits?_append (fun _ => isDigit_of_mem_padded) (padded_length_pos 4 n)
      (by simp) (.inr hyphen), digitsValue_padded]
  have sign : ∀ (c : Char) (n : Nat), (String.singleton c ++ padded 4 n).toList ++ '-' :: rest =
      c :: ((padded 4 n).toList ++ '-' :: rest) := by simp
  unfold yearText
  split
  · next plain =>
    have four : (padded 4 year.toNat).toList.length = 4 := length_padded (by decide) (by omega)
    have digits : ∀ c ∈ (padded 4 year.toNat).toList, c.isDigit = true :=
      fun _ => isDigit_of_mem_padded
    have read : readDigits? 1 4 ((padded 4 year.toNat).toList ++ '-' :: rest) =
        some (year.toNat, '-' :: rest) := by
      rw [readDigits?_append digits (by omega) (by omega) (.inl four), digitsValue_padded]
    obtain ⟨c, more, written⟩ := List.exists_cons_of_length_pos (padded_length_pos 4 year.toNat)
    rw [written, List.cons_append] at read ⊢
    rw [readYear?_digit (digits c (written ▸ List.mem_cons_self)), read, Option.map_some]
    dsimp only
    rw [Int.toNat_of_nonneg plain.1]
  · split
    · next below =>
      rw [show "-" = String.singleton '-' from rfl, sign, readYear?, skipBlanks_cons (by decide)]
      simp only [signed, Option.map_some, Option.some.injEq, Prod.mk.injEq, and_true]
      omega
    · next above =>
      rw [show "+" = String.singleton '+' from rfl, sign, readYear?, skipBlanks_cons (by decide)]
      simp only [signed, Option.map_some, Option.some.injEq, Prod.mk.injEq, and_true]
      omega

end Calendar

/-- Months and days have at most two digits. -/
theorem Date.small_parts (d : Date) : d.month < 100 ∧ d.day < 100 := by
  have short : Calendar.monthLength d.year d.month ≤ 31 := by
    unfold Calendar.monthLength
    split
    · split <;> omega
    · split <;> omega
  have parts := d.inCalendar
  rw [Calendar.hasDay, Bool.and_eq_true, Bool.and_eq_true, decide_eq_true_iff,
    decide_eq_true_iff, decide_eq_true_iff] at parts
  omega

/-- A date is read back from its text. -/
theorem Date.parseLoose?_text (d : Date) : Date.parseLoose? d.text = some d := by
  have hyphen : ∀ rest, Calendar.skipBlanks ('-' :: rest) = '-' :: rest := fun _ =>
    Calendar.skipBlanks_cons (by decide)
  have month : ∀ rest, Calendar.readSmall? ((Calendar.padded 2 d.month).toList ++ rest) =
      some (d.month, rest) := fun _ => Calendar.readSmall?_padded d.small_parts.1
  have day : Calendar.readSmall? (Calendar.padded 2 d.day).toList = some (d.day, []) := by
    rw [← List.append_nil (Calendar.padded 2 d.day).toList]
    exact Calendar.readSmall?_padded d.small_parts.2
  have date : Date.ofParts? d.year d.month d.day = some d := dif_pos d.inCalendar
  have read : Calendar.readDate? true d.text.toList = some (d, []) := by
    have chars : d.text.toList = (Calendar.yearText d.year).toList ++ '-' ::
        ((Calendar.padded 2 d.month).toList ++ '-' :: (Calendar.padded 2 d.day).toList) := by
      simp [Date.text]
    rw [chars, Calendar.readDate?]
    simp [Calendar.readYear?_yearText, Calendar.readChar?, hyphen, month, day, date]
  rw [Date.parseLoose?, read]
  rfl

/-- Different dates have different texts. -/
theorem Date.text_injective : Function.Injective Date.text := fun a b h =>
  Option.some.inj (by rw [← parseLoose?_text a, h, parseLoose?_text b])

end Cohort
