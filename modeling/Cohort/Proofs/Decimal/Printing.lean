import Cohort.Proofs.Decimal.Rounding

/-!
# Doubles and their texts

A double is written with its shortest digits, so its text leads back to it. Two doubles with one
text compare alike: they are the same number, or both are zeros, the signs of which may be lost.
This holds for the texts in JSON and for those in queries. In JSON the text of a double is never
that of an integer.

## Main definitions

* `Decimal.Binary.Shows` — a sign and a text tell a value

## Main results

* `Decimal.alike_of_writeNumber_eq` — doubles with one text in queries compare alike
* `Decimal.alike_of_writeJson_eq` — so do doubles with one text in JSON
* `Decimal.writeJson_ne_toString` — doubles and integers have different texts in JSON
-/

namespace Cohort.Decimal

variable {x y : Float} {b : Binary} {body body' : String} {negative negative' : Bool}
  {magnitude : Nat} {exponent : Int} {d : Digits} {mark : String} {i : Int}

/-! ## Bodies of numbers -/

/-- The text begins with a digit. -/
def BeginsDigit (s : String) : Prop := ∃ c more, s.toList = c :: more ∧ c.isDigit = true

theorem BeginsDigit.append (h : BeginsDigit body) (s : String) : BeginsDigit (body ++ s) := by
  obtain ⟨c, more, hc, digit⟩ := h
  exact ⟨c, more ++ s.toList, by rw [String.toList_append, hc, List.cons_append], digit⟩

theorem beginsDigit_ofList {cs : List Char} (digits : AllDigits cs) (some_digit : cs ≠ []) :
    BeginsDigit (String.ofList cs) := by
  obtain ⟨c, more, rfl⟩ := List.exists_cons_of_ne_nil some_digit
  exact ⟨c, more, String.toList_ofList, digits c List.mem_cons_self⟩

theorem beginsDigit_take {n count : Nat} (positive : count ≠ 0) :
    BeginsDigit (String.ofList ((Nat.repr n).toList.take count)) := by
  refine beginsDigit_ofList (fun c hc => allDigits_repr n c (List.mem_of_mem_take hc)) ?_
  rw [ne_eq, List.take_eq_nil_iff, not_or]
  exact ⟨positive, repr_ne_nil n⟩

theorem beginsDigit_repr (n : Nat) : BeginsDigit (Nat.repr n) := by
  rw [← String.ofList_toList (s := Nat.repr n)]
  exact beginsDigit_ofList (allDigits_repr n) (repr_ne_nil n)

theorem beginsDigit_zeroPoint : BeginsDigit "0." := ⟨'0', ['.'], rfl, by decide⟩

theorem beginsDigit_positional (d : Digits) (mark : String) : BeginsDigit (positional d mark) := by
  unfold positional
  dsimp only
  split
  · exact ((beginsDigit_ofList (allDigits_repr _) (repr_ne_nil _)).append _).append _
  · split
    · exact ((beginsDigit_take (by omega)).append _).append _
    · exact (beginsDigit_zeroPoint.append _).append _

theorem beginsDigit_scientific (d : Digits) : BeginsDigit (scientific d) :=
  (((beginsDigit_take one_ne_zero).append _).append _).append _

/-- The names of numbers begin with no digit. -/
theorem not_beginsDigit_name {name : String} (h : name = "inf" ∨ name = "NaN") :
    ¬ BeginsDigit name := by
  rintro ⟨c, more, hc, digit⟩
  rcases h with rfl | rfl <;> cases hc <;> exact absurd digit (by decide)

/-! ## Signs and bodies -/

/-- What a sign and the text behind it tell about a value. The sign of zero may be lost. -/
inductive Binary.Shows : Binary → Bool → String → Prop
  | zero (sign negative : Bool) (exponent : Int) {body : String} (begins : BeginsDigit body)
      (value : numeralValue body.toList = 0) : Shows (.finite sign 0 exponent) negative body
  | finite (negative : Bool) {magnitude : Nat} {exponent : Int} {body : String}
      (positive : magnitude ≠ 0) (begins : BeginsDigit body)
      (value : (Interval.around magnitude exponent).Holds exponent (numeralValue body.toList)) :
      Shows (.finite negative magnitude exponent) negative body
  | infinite (negative : Bool) {body : String} (named : body = "inf") :
      Shows (.infinite negative) negative body
  | undefined {body : String} (named : body = "NaN") : Shows .undefined false body

theorem BeginsDigit.no_sign (h : BeginsDigit body) : ∀ more, body.toList ≠ '-' :: more := by
  obtain ⟨c, rest, hc, digit⟩ := h
  intro more minus
  rw [hc] at minus
  rw [(List.cons.inj minus).1] at digit
  exact absurd digit (by decide)

/-- The text behind a sign begins with no sign. -/
theorem Binary.Shows.begins (h : b.Shows negative body) : ∀ more, body.toList ≠ '-' :: more := by
  cases h with
  | zero _ _ _ begins => exact begins.no_sign
  | finite _ _ begins => exact begins.no_sign
  | infinite _ named => exact fun more h => by cases named; cases h
  | undefined named => exact fun more h => by cases named; cases h

theorem signText_append_inj (begins : ∀ more, body.toList ≠ '-' :: more)
    (begins' : ∀ more, body'.toList ≠ '-' :: more)
    (h : signText negative ++ body = signText negative' ++ body') :
    negative = negative' ∧ body = body' := by
  have chars := congrArg String.toList h
  rw [String.toList_append, String.toList_append] at chars
  cases negative <;> cases negative'
  · exact ⟨rfl, String.toList_inj.mp chars⟩
  · exact absurd chars (begins _)
  · exact absurd chars.symm (begins' _)
  · exact ⟨rfl, String.toList_inj.mp (List.cons.inj chars).2⟩

/-- Doubles of which a sign and a text tell the values compare alike. -/
theorem Binary.Shows.alike (hx : (binary x).Shows negative body)
    (hy : (binary y).Shows negative body) : (Literal.number x).Alike (.number y) := by
  have of_eq : binary x = binary y → (Literal.number x).Alike (.number y) := by
    intro same
    rw [binary_injective same]
    exact .refl _
  generalize hvalue : binary x = value at hx of_eq
  generalize hvalue' : binary y = value' at hy of_eq
  cases hx with
  | zero _ _ _ begins zero =>
    cases hy with
    | zero => exact alike_of_zero hvalue hvalue'
    | finite _ positive _ holds => exact absurd zero (holds.pos positive).ne'
    | infinite _ named => exact absurd begins (not_beginsDigit_name (.inl named))
    | undefined named => exact absurd begins (not_beginsDigit_name (.inr named))
  | finite _ positive begins holds =>
    cases hy with
    | zero _ _ _ _ zero => exact absurd zero (holds.pos positive).ne'
    | finite _ _ _ holds' =>
      obtain ⟨rfl, rfl⟩ :=
        eq_of_holds (isStandard_of_binary hvalue) (isStandard_of_binary hvalue') holds holds'
      exact of_eq rfl
    | infinite _ named => exact absurd begins (not_beginsDigit_name (.inl named))
    | undefined named => exact absurd begins (not_beginsDigit_name (.inr named))
  | infinite _ named =>
    cases hy with
    | zero _ _ _ begins => exact absurd begins (not_beginsDigit_name (.inl named))
    | finite _ _ begins => exact absurd begins (not_beginsDigit_name (.inl named))
    | infinite => exact of_eq rfl
    | undefined named' => exact absurd (named.symm.trans named') (by decide)
  | undefined named =>
    cases hy with
    | zero _ _ _ begins => exact absurd begins (not_beginsDigit_name (.inr named))
    | finite _ _ begins => exact absurd begins (not_beginsDigit_name (.inr named))
    | infinite _ named' => exact absurd (named.symm.trans named') (by decide)
    | undefined => exact of_eq rfl

/-- Doubles that show themselves by one text compare alike. -/
theorem alike_of_shows {s s' : String} (hx : (binary x).Shows negative body)
    (hy : (binary y).Shows negative' body') (hs : s = signText negative ++ body)
    (hs' : s' = signText negative' ++ body') (same : s = s') :
    (Literal.number x).Alike (.number y) := by
  obtain ⟨rfl, rfl⟩ := signText_append_inj hx.begins hy.begins (hs.symm.trans (same.trans hs'))
  exact hx.alike hy

/-! ## Numbers in queries -/

theorem numeralValue_repr (n : Nat) : numeralValue (Nat.repr n).toList = n := by
  have value := numeralValue_mark (allDigits_repr n) (.inl rfl)
  rwa [String.toList_empty, List.append_nil, digitsValue_repr] at value

theorem numeralValue_zeroPoint : numeralValue "0.0".toList = 0 := by
  have value := numeralValue_mark (allDigits_repr 0) (.inr rfl)
  rwa [digitsValue_repr, Nat.cast_zero] at value

/-- A double that equals an integer has the size of the integer. -/
theorem wholeValue?_spec (h : wholeValue? x = some i) :
    ∃ (negative : Bool) (magnitude : Nat) (exponent : Int) (size : Nat),
      binary x = .finite negative magnitude exponent ∧ (size : ℚ) = magnitude * 2 ^ exponent ∧
        i = if negative then -(size : Int) else size := by
  unfold wholeValue? at h
  split at h
  · next negative magnitude exponent hx =>
    obtain ⟨_, found, rfl⟩ := Option.map_eq_some_iff.mp h
    obtain ⟨size, hsize, whole⟩ := Option.bind_eq_some_iff.mp found
    obtain rfl := Option.some.inj whole
    refine ⟨negative, magnitude, exponent, size, hx, ?_, rfl⟩
    split at hsize
    · next nonneg =>
      obtain ⟨n, rfl⟩ := Int.eq_ofNat_of_zero_le nonneg
      rw [← Option.some.inj hsize, Int.toNat_natCast, zpow_natCast, Nat.cast_mul, cast_twoTo]
    · next negative =>
      dsimp only at hsize
      split at hsize
      · next whole =>
        have unit : (twoTo (-exponent).toNat : ℚ) ≠ 0 := by
          rw [cast_twoTo]
          positivity
        have inverse : (2 : ℚ) ^ exponent = (twoTo (-exponent).toNat : ℚ)⁻¹ := by
          rw [cast_twoTo, ← zpow_natCast, ← zpow_neg, Int.toNat_of_nonneg (by omega), neg_neg]
        rw [← Option.some.inj hsize, Nat.cast_div (Nat.dvd_of_mod_eq_zero whole) unit, inverse]
        exact div_eq_mul_inv _ _
      · cases hsize
  · cases h

/-- An integer is written as a sign and its size. -/
theorem toString_eq (negative : Bool) {size : Nat} (h : negative = true → size ≠ 0) :
    toString (if negative then -(size : Int) else size) = signText negative ++ Nat.repr size := by
  rw [Int.toString_eq_repr, Int.repr_eq_if]
  cases negative with
  | false => simp [signText]
  | true =>
    have below : ¬ 0 ≤ -(size : Int) := by
      have positive := h rfl
      omega
    rw [if_pos rfl, if_neg below, Int.neg_neg, Int.toNat_natCast]
    rfl

/-- The text of a number in a query tells its value. -/
theorem writeNumber_shows (x : Float) : ∃ negative body,
    writeNumber x = signText negative ++ body ∧ (binary x).Shows negative body := by
  unfold writeNumber
  split
  · next i small =>
    obtain ⟨negative, magnitude, exponent, size, hx, value, rfl⟩ :=
      wholeValue?_spec (Option.filter_eq_some_iff.mp small).1
    rw [hx]
    by_cases zero : magnitude = 0
    · subst zero
      rw [Nat.cast_zero, zero_mul, Nat.cast_eq_zero] at value
      subst value
      refine ⟨false, Nat.repr 0, by cases negative <;> rfl, .zero _ _ _ (beginsDigit_repr 0) ?_⟩
      exact numeralValue_repr 0
    · have positive : size ≠ 0 := by
        rintro rfl
        rw [Nat.cast_zero] at value
        have unit : (0 : ℚ) < 2 ^ exponent := by positivity
        have zero_size := (mul_eq_zero.mp value.symm).resolve_right unit.ne'
        exact zero (Nat.cast_eq_zero.mp zero_size)
      refine ⟨negative, Nat.repr size, toString_eq negative fun _ => positive,
        .finite negative zero (beginsDigit_repr size) ?_⟩
      rw [numeralValue_repr, value]
      exact around_holds exponent zero
  · unfold writePlain
    split
    · next negative exponent hx =>
      rw [hx]
      exact ⟨negative, "0", rfl, .zero _ _ _ (beginsDigit_repr 0) (numeralValue_repr 0)⟩
    · next negative magnitude exponent nonzero hx =>
      rw [hx]
      have positive : magnitude ≠ 0 := nonzero
      refine ⟨negative, _, rfl, .finite negative positive (beginsDigit_positional _ _) ?_⟩
      rw [numeralValue_positional _ (.inl rfl)]
      exact shortest_holds (isStandard_of_binary hx) positive
    · next negative hx =>
      rw [hx]
      exact ⟨negative, "inf", rfl, .infinite negative rfl⟩
    · next hx =>
      rw [hx]
      exact ⟨false, "NaN", rfl, .undefined rfl⟩

/-- Doubles with one text in queries compare alike. -/
theorem alike_of_writeNumber_eq (h : writeNumber x = writeNumber y) :
    (Literal.number x).Alike (.number y) := by
  obtain ⟨_, _, hs, hx⟩ := writeNumber_shows x
  obtain ⟨_, _, hs', hy⟩ := writeNumber_shows y
  exact alike_of_shows hx hy hs hs' h

/-! ## Numbers in JSON -/

/-- The text of a finite number in JSON tells its value. -/
theorem writeJson_shows (finite : isFinite x = true) : ∃ negative body,
    writeJson x = signText negative ++ body ∧ (binary x).Shows negative body := by
  unfold isFinite at finite
  unfold writeJson
  split at finite
  · next negative magnitude exponent hx =>
    rw [hx]
    split
    · next h =>
      cases h
      refine ⟨negative, "0.0", rfl, .zero _ _ _ ?_ numeralValue_zeroPoint⟩
      exact beginsDigit_zeroPoint.append "0"
    · next nonzero h =>
      cases h
      have positive : magnitude ≠ 0 := nonzero
      have holds : (Interval.around magnitude exponent).Holds exponent
          (shortest .even magnitude exponent).value :=
        shortest_holds (isStandard_of_binary hx) positive
      dsimp only
      split
      · refine ⟨negative, _, rfl, .finite negative positive (beginsDigit_positional _ _) ?_⟩
        rwa [numeralValue_positional _ (.inr rfl)]
      · refine ⟨negative, _, rfl, .finite negative positive (beginsDigit_scientific _) ?_⟩
        rwa [numeralValue_scientific]
    · next h => exact absurd rfl (h _ _ _)
  · cases finite

/-- Finite doubles with one text in JSON compare alike. -/
theorem alike_of_writeJson_eq (finite : isFinite x = true) (finite' : isFinite y = true)
    (h : writeJson x = writeJson y) : (Literal.number x).Alike (.number y) := by
  obtain ⟨_, _, hs, hx⟩ := writeJson_shows finite
  obtain ⟨_, _, hs', hy⟩ := writeJson_shows finite'
  exact alike_of_shows hx hy hs hs' h

/-! ## Numbers and integers in JSON -/

/-- The text has a point or an exponent. -/
def HasMark (s : String) : Prop := '.' ∈ s.toList ∨ 'e' ∈ s.toList

theorem HasMark.append_left (h : HasMark body) (s : String) : HasMark (s ++ body) := by
  unfold HasMark at h ⊢
  rw [String.toList_append, List.mem_append, List.mem_append]
  exact h.imp .inr .inr

theorem HasMark.append (h : HasMark body) (s : String) : HasMark (body ++ s) := by
  unfold HasMark at h ⊢
  rw [String.toList_append, List.mem_append, List.mem_append]
  exact h.imp .inl .inl

theorem hasMark_positional (d : Digits) : HasMark (positional d ".0") := by
  have point : HasMark "." := .inl (by decide)
  have start : HasMark "0." := .inl (by decide)
  have whole : HasMark ".0" := .inl (by decide)
  unfold positional
  dsimp only
  split
  · exact whole.append_left _
  · split
    · exact (point.append_left _).append _
    · exact (start.append _).append _

theorem hasMark_scientific (d : Digits) : HasMark (scientific d) := by
  have sign : ∀ power : Int, HasMark (if power < 0 then "e-" else "e+") := by
    intro power
    split <;> exact .inr (by decide)
  exact ((sign _).append_left _).append _

theorem hasMark_writeJson (finite : isFinite x = true) : HasMark (writeJson x) := by
  unfold isFinite at finite
  unfold writeJson
  split at finite
  · next negative magnitude exponent hx =>
    rw [hx]
    split
    · have zero : HasMark "0.0" := .inl (by decide)
      exact zero.append_left _
    · dsimp only
      split
      · exact (hasMark_positional _).append_left _
      · exact (hasMark_scientific _).append_left _
    · next h => exact absurd rfl (h _ _ _)
  · cases finite

theorem not_hasMark_toString (i : Int) : ¬ HasMark (toString i) := by
  have digits : ∀ n : Nat, ∀ c ∈ (Nat.repr n).toList, c ≠ '.' ∧ c ≠ 'e' := by
    intro n c hc
    have digit := allDigits_repr n c hc
    constructor <;> rintro rfl <;> exact absurd digit (by decide)
  rw [Int.toString_eq_repr, Int.repr_eq_if]
  split
  · rintro (point | mark)
    · exact (digits _ _ point).1 rfl
    · exact (digits _ _ mark).2 rfl
  · unfold HasMark
    rw [String.toList_append, List.mem_append, List.mem_append]
    rintro (point | mark)
    · exact (digits _ _ (point.resolve_left (by decide))).1 rfl
    · exact (digits _ _ (mark.resolve_left (by decide))).2 rfl

/-- A finite double and an integer have different texts in JSON. -/
theorem writeJson_ne_toString (finite : isFinite x = true) (i : Int) :
    writeJson x ≠ toString i := fun same =>
  not_hasMark_toString i (same ▸ hasMark_writeJson finite)

end Cohort.Decimal
