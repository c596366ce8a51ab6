import Cohort.Proofs.Json.Numbers

/-!
# Doubles in JSON

The text of a finite double is one JSON number, with a point or an exponent, so that it is read as
a double and never as an integer. Which double that is depends on the digits. Infinite and undefined
numbers have no text; `null` stands in their place.

## Main definitions

* `Json.rereadDouble?` — the double that the text of a double is read as

## Main results

* `Json.spanNumber?_writeJson` — the text of a finite double is one number, and no integer
* `Json.readNumber?_writeJson` — it is read as a double, if at all
-/

namespace Cohort.Json

open Decimal

variable {cs rest whole fraction tail : List Char} {negative : Bool} {n : WrittenNumber}
  {power? : Option Int} {x : Float} {body : String}

/-! ## Numbers with a mark -/

/-- The text is one number behind its sign, with a point or an exponent. -/
def IsMarkedNumber (negative : Bool) (cs : List Char) : Prop :=
  ∃ n, spanSize? negative cs = some (n, []) ∧ n.integer? = none

/-- Digits on both sides of a point, and perhaps an exponent, are a number. -/
theorem isMarkedNumber_point (whole_digits : AllDigits whole) (is_whole : IsWholePart whole)
    (digits : AllDigits fraction) (some_digit : fraction ≠ []) (ends : EndsDigits tail)
    (power : readPower? tail = some (power?, [])) :
    IsMarkedNumber negative (whole ++ '.' :: (fraction ++ tail)) := by
  refine ⟨⟨negative, whole, fraction, power?⟩, spanSize?_eq_some_iff.mpr ?_, ?_⟩
  · have point : EndsDigits ('.' :: (fraction ++ tail)) := endsDigits_cons (by decide)
    rw [spanDigits_append whole_digits point]
    refine ⟨rfl, rfl, is_whole, tail, ?_, power⟩
    rw [readFraction?, spanDigits_append digits ends]
    simp [some_digit]
  · simp [WrittenNumber.integer?, some_digit]

/-- Digits and an exponent are a number. -/
theorem isMarkedNumber_power {power : Int} (whole_digits : AllDigits whole)
    (is_whole : IsWholePart whole) (read : readPower? ('e' :: tail) = some (some power, [])) :
    IsMarkedNumber negative (whole ++ 'e' :: tail) := by
  refine ⟨⟨negative, whole, [], some power⟩, spanSize?_eq_some_iff.mpr ?_, rfl⟩
  have mark : EndsDigits ('e' :: tail) := endsDigits_cons (by decide)
  rw [spanDigits_append whole_digits mark]
  exact ⟨rfl, rfl, is_whole, _, rfl, read⟩

/-- An exponent has a sign and at least one digit. -/
theorem exists_readPower?_eq {sign : Char} (signed : sign = '-' ∨ sign = '+') {digits : List Char}
    (all_digits : AllDigits digits) (some_digit : digits ≠ []) :
    ∃ power, readPower? ('e' :: sign :: digits) = some (some power, []) := by
  have span := spanDigits_append all_digits endsDigits_nil
  rw [List.append_nil] at span
  rcases signed with rfl | rfl <;> simp [readPower?, spanSign, span, some_digit]

/-! ## Positional and scientific texts -/

theorem isMarkedNumber_positional (d : Digits) (positive : d.coefficient ≠ 0) :
    IsMarkedNumber negative (positional d ".0").toList := by
  obtain ⟨whole, digits, some_digit, first, text⟩ := positional_cases d ".0"
  have is_whole : IsWholePart whole := by
    rcases first positive with rfl | first
    · rfl
    · exact isWholePart_of_head? some_digit first
  -- Without digits behind the point there is a zero.
  obtain ⟨fraction, digits', some_digit', written⟩ : ∃ fraction, AllDigits fraction ∧
      fraction ≠ [] ∧ (positional d ".0").toList = whole ++ '.' :: fraction := by
    rcases text with written | pointed
    · exact ⟨['0'], allDigits_zeros 1, List.cons_ne_nil _ _, written⟩
    · exact pointed
  have point : IsMarkedNumber negative (whole ++ '.' :: (fraction ++ [])) :=
    isMarkedNumber_point digits is_whole digits' some_digit' endsDigits_nil rfl
  rwa [written, ← List.append_nil fraction]

theorem isMarkedNumber_scientific (d : Digits) (positive : d.coefficient ≠ 0) :
    IsMarkedNumber negative (scientific d).toList := by
  obtain ⟨c, more, written, first⟩ := exists_repr_cons positive
  have digits : AllDigits (c :: more) := written ▸ allDigits_repr d.coefficient
  have one : AllDigits [c] := digits.take 1
  have is_whole : IsWholePart [c] :=
    isWholePart_of_head? (List.cons_ne_nil _ _) (by simpa using first)
  unfold scientific
  rw [written]
  dsimp only
  generalize d.exponent + ((c :: more).length : Int) - 1 = power
  obtain ⟨sign, signed, mark⟩ : ∃ sign, (sign = '-' ∨ sign = '+') ∧
      (if power < 0 then "e-" else "e+").toList = ['e', sign] := by
    split
    · exact ⟨'-', .inl rfl, rfl⟩
    · exact ⟨'+', .inr rfl, rfl⟩
  obtain ⟨value, read⟩ := exists_readPower?_eq signed (allDigits_repr power.natAbs)
    (repr_ne_nil power.natAbs)
  cases more with
  | nil =>
    have number : IsMarkedNumber negative _ := isMarkedNumber_power one is_whole read
    simpa [mark] using number
  | cons c' more =>
    have behind : AllDigits (c' :: more) := digits.drop 1
    have ends : EndsDigits ('e' :: sign :: (Nat.repr power.natAbs).toList) :=
      endsDigits_cons (by decide)
    have point : IsMarkedNumber negative _ :=
      isMarkedNumber_point one is_whole behind (List.cons_ne_nil _ _) ends read
    simpa [mark] using point

/-! ## The text of a double -/

/-- Behind its sign the text of a finite double is a number with a point or an exponent. -/
theorem exists_writeJson_eq (finite : isFinite x = true) : ∃ negative body,
    writeJson x = signText negative ++ body ∧ IsMarkedNumber negative body.toList := by
  unfold isFinite at finite
  unfold writeJson
  split at finite
  · next negative magnitude exponent hx =>
    rw [hx]
    split
    · exact ⟨_, "0.0", rfl, ⟨_, ['0'], ['0'], none⟩, rfl, rfl⟩
    · next nonzero h =>
      cases h
      have positive : magnitude ≠ 0 := nonzero
      have some_digit : (shortest .even magnitude exponent).coefficient ≠ 0 := by
        intro zero
        have holds : (Interval.around magnitude exponent).Holds exponent
            (shortest .even magnitude exponent).value :=
          shortest_holds (isStandard_of_binary hx) positive
        have value := holds.pos positive
        rw [Digits.value, zero, Nat.cast_zero, zero_mul] at value
        exact lt_irrefl 0 value
      dsimp only
      split
      · exact ⟨_, _, rfl, isMarkedNumber_positional _ some_digit⟩
      · exact ⟨_, _, rfl, isMarkedNumber_scientific _ some_digit⟩
    · next h => exact absurd rfl (h _ _ _)
  · cases finite

theorem spanNumber?_signText (h : IsMarkedNumber negative body.toList) :
    ∃ n, spanNumber? (signText negative ++ body).toList = some (n, []) ∧ n.integer? = none := by
  obtain ⟨n, spanned, marked⟩ := h
  refine ⟨n, ?_, marked⟩
  cases negative with
  | true =>
    have signed : (signText true ++ body).toList = '-' :: body.toList := by simp [signText]
    rw [signed, spanNumber?_minus]
    exact spanned
  | false =>
    have unsigned : (signText false ++ body).toList = body.toList := by simp [signText]
    rw [unsigned]
    obtain ⟨-, whole, present, -⟩ := spanSize?_eq_some_iff.mp spanned
    cases written : body.toList with
    | nil =>
      rw [whole, written] at present
      cases present
    | cons c more =>
      have plain : c ≠ '-' := by
        rintro rfl
        rw [whole, written] at present
        cases present
      rw [spanNumber?_plain plain, ← written]
      exact spanned

/-- The text of a finite double is one number, and no integer. -/
theorem spanNumber?_writeJson (finite : isFinite x = true) :
    ∃ n, spanNumber? (writeJson x).toList = some (n, []) ∧ n.integer? = none := by
  obtain ⟨negative, body, written, marked⟩ := exists_writeJson_eq finite
  rw [written]
  exact spanNumber?_signText marked

theorem writeJson_of_not_finite (infinite : isFinite x = false) : writeJson x = "null" := by
  unfold isFinite at infinite
  unfold writeJson
  split at infinite
  · cases infinite
  · next other =>
    split
    · next value => exact absurd value (other _ _ _)
    · next value => exact absurd value (other _ _ _)
    · rfl

/-! ## Reading it again -/

/-- The double that the text of a double is read as, which is perhaps another one. A number that is
read as too large is refused, and so are infinite and undefined numbers, which have no text. -/
def rereadDouble? (x : Float) : Option Float :=
  match readNumber? (writeJson x).toList with
  | some (.float y, _) => some y
  | _ => none

/-- A number that is not written as an integer is read roughly, if it is not too large. -/
theorem readNumber?_marked (spanned : spanNumber? cs = some (n, rest))
    (marked : n.integer? = none) : readNumber? cs =
      (some (roughly n.negative n.whole n.fraction (n.power?.getD 0)) |>.filter isFinite).map
        fun y => (.float y, rest) := by
  have value : n.value = .float (roughly n.negative n.whole n.fraction (n.power?.getD 0)) := by
    rw [WrittenNumber.value, marked]
  unfold readNumber?
  rw [spanned, Option.bind_eq_bind, Option.bind_some]
  dsimp only
  rw [value, Option.filter_some]
  dsimp only
  split <;> rfl

/-- The text of a finite double is read as a double, if at all. -/
theorem readNumber?_writeJson (finite : isFinite x = true) (ends : EndsValue rest) :
    readNumber? ((writeJson x).toList ++ rest) =
      (rereadDouble? x).map fun y => (.float y, rest) := by
  obtain ⟨n, spanned, marked⟩ := spanNumber?_writeJson finite
  rw [readNumber?_marked (spanNumber?_append spanned ends) marked, List.nil_append, rereadDouble?,
    readNumber?_marked spanned marked]
  cases (some (roughly n.negative n.whole n.fraction (n.power?.getD 0))).filter isFinite <;> rfl

/-- Infinite and undefined numbers are not read again. -/
theorem rereadDouble?_of_not_finite (infinite : isFinite x = false) : rereadDouble? x = none := by
  rw [rereadDouble?, writeJson_of_not_finite infinite]
  rfl

theorem isFinite_of_rereadDouble? {y : Float} (h : rereadDouble? x = some y) :
    isFinite x = true := by
  by_contra infinite
  rw [rereadDouble?_of_not_finite (Bool.eq_false_iff.mpr infinite)] at h
  cases h

theorem readBack_iff : ReadBack x ↔ rereadDouble? x = some x := by
  constructor
  · intro h
    rw [rereadDouble?, h]
  · intro h
    have read := readNumber?_writeJson (isFinite_of_rereadDouble? h) endsValue_nil
    rwa [List.append_nil, h] at read

end Cohort.Json
