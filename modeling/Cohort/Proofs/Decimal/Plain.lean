import Cohort.Proofs.Decimal.Printing

/-!
# Decimals in queries

A number without an exponent is written as digits, with a point between them where it is needed and
no zero in front of others. A finite number stands in a query in this way, with its sign. Infinite
and undefined numbers stand there by name, which is no number to SQL.

## Main definitions

* `Decimal.IsDecimal` — the text is a decimal without an exponent

## Main results

* `Decimal.positional_cases` — what digits with a decimal point look like
* `Decimal.isDecimal_writeNumber` — just the finite numbers are written as decimals
-/

namespace Cohort.Decimal

variable {n : Nat} {x : Float} {body : String}

/-! ## Digits and a point -/

/-- A positive number is written without a zero in front. -/
theorem exists_repr_cons (positive : n ≠ 0) :
    ∃ c more, (Nat.repr n).toList = c :: more ∧ c ≠ '0' := by
  have digits := allDigits_repr n
  have value := digitsValue_repr n
  have shortest : ∀ k, 0 < k → n < 10 ^ k → (Nat.repr n).toList.length ≤ k := by
    intro k some_digit small
    rw [Nat.toList_repr]
    exact (Nat.length_toDigits_le_iff (by decide) some_digit).mpr small
  obtain ⟨c, more, written⟩ := List.exists_cons_of_ne_nil (repr_ne_nil n)
  refine ⟨c, more, written, ?_⟩
  rintro rfl
  rw [written] at digits value shortest
  -- Without the zero the number is the same, so it has fewer digits than are written.
  have same : digitsValue more = n := value
  have below := digitsValue_lt fun c hc => digits c (List.mem_cons_of_mem _ hc)
  have some_more : more ≠ [] := by
    rintro rfl
    exact positive same.symm
  have short := shortest more.length (List.length_pos_iff.mpr some_more) (same ▸ below)
  rw [List.length_cons] at short
  omega

/-- Digits with a decimal point are digits with the mark of whole numbers behind them, or digits on
both sides of a point. Before the point there is a single zero, or a positive number has no zero in
front. -/
theorem positional_cases (d : Digits) (mark : String) :
    ∃ whole, AllDigits whole ∧ whole ≠ [] ∧
      (d.coefficient ≠ 0 → whole = ['0'] ∨ whole.head? ≠ some '0') ∧
      ((positional d mark).toList = whole ++ mark.toList ∨
        ∃ fraction, AllDigits fraction ∧ fraction ≠ [] ∧
          (positional d mark).toList = whole ++ '.' :: fraction) := by
  have digits := allDigits_repr d.coefficient
  have some_digit := repr_ne_nil d.coefficient
  have first : ∀ rest, d.coefficient ≠ 0 →
      ((Nat.repr d.coefficient).toList ++ rest).head? ≠ some '0' := by
    intro rest positive
    obtain ⟨c, more, written, no_zero⟩ := exists_repr_cons positive
    simpa [written] using no_zero
  unfold positional
  dsimp only
  split
  · exact ⟨_, digits.append (allDigits_zeros d.exponent.toNat),
      List.append_ne_nil_of_left_ne_nil some_digit _, fun positive => .inr (first _ positive),
      .inl (by simp)⟩
  · split
    · next inside =>
      -- The point is between the digits.
      generalize (Nat.repr d.coefficient).toList = written at *
      refine ⟨written.take (written.length - (-d.exponent).toNat), digits.take _, ?_,
        fun positive => .inr ?_, .inr ⟨written.drop (written.length - (-d.exponent).toNat),
          digits.drop _, ?_, by simp⟩⟩
      · rw [ne_eq, List.take_eq_nil_iff, not_or]
        exact ⟨by omega, some_digit⟩
      · rw [List.head?_take, if_neg (by omega)]
        simpa using first [] positive
      · rw [ne_eq, List.drop_eq_nil_iff]
        omega
    · -- All digits are behind the point.
      have zeros := allDigits_zeros
        ((-d.exponent).toNat - (Nat.repr d.coefficient).toList.length)
      exact ⟨['0'], allDigits_zeros 1, List.cons_ne_nil _ _, fun _ => .inl rfl,
        .inr ⟨_, zeros.append digits, List.append_ne_nil_of_right_ne_nil _ some_digit, by simp⟩⟩

/-! ## Numbers in queries -/

/-- Digits, or digits on both sides of a point. -/
inductive IsUnsignedDecimal : List Char → Prop
  | whole {whole : List Char} (digits : AllDigits whole) (some_digit : whole ≠ []) :
      IsUnsignedDecimal whole
  | point {whole fraction : List Char} (digits : AllDigits whole) (some_digit : whole ≠ [])
      (digits' : AllDigits fraction) (some_digit' : fraction ≠ []) :
      IsUnsignedDecimal (whole ++ '.' :: fraction)

/-- The text is a decimal without an exponent. -/
def IsDecimal (s : String) : Prop :=
  ∃ negative body, s = signText negative ++ body ∧ IsUnsignedDecimal body.toList

theorem isUnsignedDecimal_repr (n : Nat) : IsUnsignedDecimal (Nat.repr n).toList :=
  .whole (allDigits_repr n) (repr_ne_nil n)

theorem isUnsignedDecimal_positional (d : Digits) :
    IsUnsignedDecimal (positional d "").toList := by
  obtain ⟨whole, digits, some_digit, -, written | ⟨fraction, digits', some_digit', written⟩⟩ :=
    positional_cases d ""
  · rw [written, String.toList_empty, List.append_nil]
    exact .whole digits some_digit
  · rw [written]
    exact .point digits some_digit digits' some_digit'

theorem IsUnsignedDecimal.begins (h : IsUnsignedDecimal body.toList) : BeginsDigit body := by
  have first : ∀ {whole : List Char} (rest : List Char), AllDigits whole → whole ≠ [] →
      ∃ c more, whole ++ rest = c :: more ∧ c.isDigit = true := by
    intro whole rest digits some_digit
    obtain ⟨c, more, rfl⟩ := List.exists_cons_of_ne_nil some_digit
    exact ⟨c, more ++ rest, rfl, digits c List.mem_cons_self⟩
  generalize written : body.toList = cs at h
  unfold BeginsDigit
  rw [written]
  cases h with
  | whole digits some_digit => simpa using first [] digits some_digit
  | point digits some_digit => exact first _ digits some_digit

theorem isDecimal_toString (i : Int) : IsDecimal (toString i) := by
  rw [Int.toString_eq_repr, Int.repr_eq_if]
  split
  · exact ⟨false, Nat.repr i.toNat, by simp [signText], isUnsignedDecimal_repr _⟩
  · exact ⟨true, _, rfl, isUnsignedDecimal_repr _⟩

theorem isDecimal_writePlain (finite : isFinite x = true) : IsDecimal (writePlain x) := by
  unfold isFinite at finite
  unfold writePlain
  split at finite
  · next negative magnitude exponent hx =>
    rw [hx]
    split
    · exact ⟨_, "0", rfl, isUnsignedDecimal_repr 0⟩
    · exact ⟨_, _, rfl, isUnsignedDecimal_positional _⟩
    · next h => cases h
    · next h => cases h
  · cases finite

/-- Just the finite numbers stand in queries as decimals. -/
theorem isDecimal_writeNumber : IsDecimal (writeNumber x) ↔ isFinite x = true := by
  constructor
  · rintro ⟨negative, body, written, decimal⟩
    obtain ⟨negative', body', written', shows⟩ := writeNumber_shows x
    obtain ⟨-, rfl⟩ := signText_append_inj decimal.begins.no_sign shows.begins
      (written.symm.trans written')
    unfold isFinite
    generalize binary x = value at shows
    cases shows with
    | zero | finite => rfl
    | infinite _ named => exact absurd decimal.begins (not_beginsDigit_name (.inl named))
    | undefined named => exact absurd decimal.begins (not_beginsDigit_name (.inr named))
  · intro finite
    unfold writeNumber
    split
    · exact isDecimal_toString _
    · exact isDecimal_writePlain finite

end Cohort.Decimal
