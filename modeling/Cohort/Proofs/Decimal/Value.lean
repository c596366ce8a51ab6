import Mathlib.Algebra.Order.Field.Rat
import Mathlib.Data.List.Induction
import Mathlib.Tactic.FieldSimp
import Mathlib.Tactic.Ring
import Cohort.Decimal.Reader
import Cohort.Proofs.Decimal.Characters

/-!
# The number that a text stands for

Digits, a point and an exponent stand for a rational number. Shortest digits are written in two
ways, with all their places or with a power of ten, and both stand for the number of the digits.
So the text of a double tells which digits it was written with, up to zeros at the end.

## Main definitions

* `Decimal.numeralValue` — the number that a text without a sign stands for
* `Decimal.Digits.value` — the number of some digits

## Main results

* `Decimal.numeralValue_positional`, `Decimal.numeralValue_scientific` — what is written stands for
  the number of the digits
-/

namespace Cohort.Decimal

variable {w f rest : List Char} {d : Digits} {mark : String} {n : Nat}

/-- The number of some digits. -/
def Digits.value (d : Digits) : ℚ := d.coefficient * 10 ^ d.exponent

/-- The number that digits with an optional point and exponent stand for. -/
def numeralValue (cs : List Char) : ℚ :=
  let (whole, rest) := spanDigits cs
  let (fraction, rest) : List Char × List Char :=
    match rest with
    | '.' :: after => spanDigits after
    | _ => ([], rest)
  digitsValue (whole ++ fraction) * 10 ^ ((readExponent? rest).getD 0 - fraction.length)

/-! ## Runs of digits -/

/-- Digits after a number move it up by as many places. -/
theorem foldl_digits (n : Nat) (cs : List Char) :
    cs.foldl (fun n c => 10 * n + digitValue c) n = n * 10 ^ cs.length + digitsValue cs := by
  induction cs using List.reverseRecOn with
  | nil => simp [digitsValue]
  | append_singleton cs c ih =>
    simp only [digitsValue, List.foldl_append, List.foldl_cons, List.foldl_nil, ih,
      List.length_append, List.length_singleton, pow_succ]
    ring

theorem digitsValue_append (a b : List Char) :
    digitsValue (a ++ b) = digitsValue a * 10 ^ b.length + digitsValue b := by
  rw [digitsValue, List.foldl_append, foldl_digits (List.foldl _ 0 a), ← digitsValue]

theorem digitsValue_repr (n : Nat) : digitsValue (Nat.repr n).toList = n := by
  rw [Nat.toList_repr]
  exact Nat.ofDigitChars_ten_toDigits

/-- So many digits stand for a number below that power of ten. -/
theorem digitsValue_lt (digits : AllDigits w) : digitsValue w < 10 ^ w.length := by
  induction w with
  | nil => decide
  | cons c cs ih =>
    have small : digitValue c ≤ 9 := by
      have digit := digits c List.mem_cons_self
      simp only [Char.isDigit, Bool.and_eq_true, decide_eq_true_eq] at digit
      have above : c.toNat ≤ 57 := digit.2
      unfold digitValue
      omega
    have below := ih fun d hd => digits d (List.mem_cons_of_mem _ hd)
    have value : digitsValue (c :: cs) = digitValue c * 10 ^ cs.length + digitsValue cs := by
      rw [digitsValue, List.foldl_cons, foldl_digits, Nat.mul_zero, Nat.zero_add]
    calc digitsValue (c :: cs)
        < digitValue c * 10 ^ cs.length + 10 ^ cs.length := by omega
      _ ≤ 9 * 10 ^ cs.length + 10 ^ cs.length := by gcongr
      _ = 10 ^ (c :: cs).length := by rw [List.length_cons, pow_succ]; ring

theorem digitsValue_zeros (n : Nat) : digitsValue (zeros n).toList = 0 := by
  have zero : digitValue '0' = 0 := rfl
  rw [toList_zeros]
  induction n with
  | zero => rfl
  | succ n ih => simpa [List.replicate_succ, digitsValue, zero] using ih

/-! ## Texts with a point or an exponent -/

/-- The text goes on with something else than a digit, or it ends. -/
def EndsDigits (rest : List Char) : Prop := ∀ c more, rest = c :: more → c.isDigit = false

theorem endsDigits_nil : EndsDigits [] := fun _ _ h => by cases h

theorem endsDigits_cons {c : Char} (h : c.isDigit = false) : EndsDigits (c :: rest) := by
  rintro _ _ h'
  rw [← (List.cons.inj h').1]
  exact h

theorem spanDigits_append (hw : AllDigits w) (hrest : EndsDigits rest) :
    spanDigits (w ++ rest) = (w, rest) := by
  rw [spanDigits, List.takeWhile_append_of_pos hw, List.dropWhile_append_of_pos hw]
  cases rest with
  | nil => simp
  | cons c more => simp [hrest c more rfl]

/-- Digits end where something else follows. -/
theorem spanDigits_append_ends (ends : EndsDigits rest) :
    spanDigits (w ++ rest) = ((spanDigits w).1, (spanDigits w).2 ++ rest) := by
  have digits : AllDigits (spanDigits w).1 := List.all_eq_true.mp List.all_takeWhile
  have parts : w = (spanDigits w).1 ++ (spanDigits w).2 := List.takeWhile_append_dropWhile.symm
  have stops : EndsDigits ((spanDigits w).2 ++ rest) := by
    intro c more h
    cases tail : (spanDigits w).2 with
    | nil =>
      rw [tail] at h
      exact ends c more h
    | cons d tail' =>
      rw [tail, List.cons_append, List.cons.injEq] at h
      have stopped := List.head?_dropWhile_not Char.isDigit w
      rw [show w.dropWhile Char.isDigit = d :: tail' from tail] at stopped
      simpa [h.1] using stopped
  calc spanDigits (w ++ rest)
      = spanDigits ((spanDigits w).1 ++ ((spanDigits w).2 ++ rest)) := by
        rw [← List.append_assoc, ← parts]
    _ = _ := spanDigits_append digits stops

theorem numeralValue_whole (hw : AllDigits w) (hrest : EndsDigits rest)
    (point : ∀ more, rest ≠ '.' :: more) :
    numeralValue (w ++ rest) = digitsValue w * 10 ^ (readExponent? rest).getD 0 := by
  rw [numeralValue, spanDigits_append hw hrest]
  dsimp only
  split
  · next after => exact absurd rfl (point after)
  · simp

theorem numeralValue_point (hw : AllDigits w) (hf : AllDigits f) (hrest : EndsDigits rest) :
    numeralValue (w ++ '.' :: (f ++ rest)) =
      digitsValue (w ++ f) * 10 ^ ((readExponent? rest).getD 0 - f.length) := by
  have point : EndsDigits ('.' :: (f ++ rest)) := endsDigits_cons (by decide)
  rw [numeralValue, spanDigits_append hw point]
  simp only [spanDigits_append hf hrest]

/-- An exponent is read as it is written. -/
theorem exists_readExponent? (power : Int) : ∃ rest,
    ((if power < 0 then "e-" else "e+") ++ Nat.repr power.natAbs).toList = 'e' :: rest ∧
      readExponent? ('e' :: rest) = some power := by
  have digits : ((Nat.repr power.natAbs).toList.isEmpty ||
      !(Nat.repr power.natAbs).toList.all Char.isDigit) = false := by
    rw [List.all_eq_true.mpr (allDigits_repr _), Bool.not_true, Bool.or_false,
      List.isEmpty_eq_false_iff]
    exact repr_ne_nil _
  rw [String.toList_append]
  split
  · refine ⟨'-' :: (Nat.repr power.natAbs).toList, rfl, ?_⟩
    simp only [readExponent?, spanSign, digits, digitsValue_repr, true_or, if_true,
      Bool.false_eq_true, if_false]
    exact congrArg some (by omega)
  · refine ⟨'+' :: (Nat.repr power.natAbs).toList, rfl, ?_⟩
    simp only [readExponent?, spanSign, digits, digitsValue_repr, true_or, if_true,
      Bool.false_eq_true, if_false]
    exact congrArg some (by omega)

/-! ## Written digits -/

private theorem toList_point : ".".toList = ['.'] := rfl

private theorem toList_zeroPoint : "0.".toList = ['0'] ++ ['.'] := rfl

private theorem digitsValue_zero : digitsValue ['0'] = 0 := rfl

private theorem allDigits_zero : AllDigits ['0'] := allDigits_zeros 1

/-- As many places behind the point as the exponent says stand for the number of the digits. -/
theorem numeralValue_behind (negative : d.exponent < 0) (hw : AllDigits w) (hf : AllDigits f)
    (value : digitsValue (w ++ f) = d.coefficient) (places : f.length = (-d.exponent).toNat) :
    numeralValue (w ++ '.' :: f) = d.value := by
  have exponent : ((-d.exponent).toNat : Int) = -d.exponent := Int.toNat_of_nonneg (by omega)
  have read := numeralValue_point hw hf endsDigits_nil
  rw [List.append_nil, value, places, exponent] at read
  rw [read, Digits.value]
  simp [readExponent?]

/-- Digits without a point, with or without a mark that they are whole. -/
theorem numeralValue_mark (digits : AllDigits w) (hmark : mark = "" ∨ mark = ".0") :
    numeralValue (w ++ mark.toList) = digitsValue w := by
  rcases hmark with rfl | rfl
  · have value := numeralValue_whole digits endsDigits_nil (by simp)
    rw [String.toList_empty, value]
    simp [readExponent?]
  · have value := numeralValue_point digits allDigits_zero endsDigits_nil
    rw [List.append_nil, digitsValue_append, digitsValue_zero] at value
    change numeralValue (w ++ ['.', '0']) = _
    rw [value]
    simp [readExponent?, zpow_neg]

/-- Digits with all their places stand for their number. -/
theorem numeralValue_positional (d : Digits) (hmark : mark = "" ∨ mark = ".0") :
    numeralValue (positional d mark).toList = d.value := by
  have digits := allDigits_repr d.coefficient
  unfold positional
  dsimp only
  split
  · next nonneg =>
    obtain ⟨places, hplaces⟩ := Int.eq_ofNat_of_zero_le nonneg
    rw [hplaces, Int.toNat_natCast, String.toList_append, String.toList_append,
      String.toList_ofList, numeralValue_mark (digits.append (allDigits_zeros _)) hmark,
      digitsValue_append, digitsValue_repr, digitsValue_zeros, toList_zeros,
      List.length_replicate, Digits.value, hplaces, zpow_natCast]
    push_cast
    ring
  · next negative =>
    rw [not_le] at negative
    split
    · next inside =>
      simp only [String.toList_append, String.toList_ofList, toList_point, List.append_assoc,
        List.singleton_append]
      refine numeralValue_behind negative (digits.take _) (digits.drop _) ?_ ?_
      · rw [List.take_append_drop, digitsValue_repr]
      · rw [List.length_drop]
        omega
    · next outside =>
      simp only [String.toList_append, String.toList_ofList, toList_zeroPoint, List.append_assoc,
        List.singleton_append (x := '.')]
      refine numeralValue_behind (w := ['0']) (f := (zeros _).toList ++ (Nat.repr _).toList)
        negative allDigits_zero ((allDigits_zeros _).append digits) ?_ ?_
      · rw [digitsValue_append, digitsValue_append, digitsValue_zeros, digitsValue_repr,
          digitsValue_zero]
        simp
      · rw [List.length_append, toList_zeros, List.length_replicate]
        omega

/-- Digits with a power of ten stand for their number. -/
theorem numeralValue_scientific (d : Digits) : numeralValue (scientific d).toList = d.value := by
  have digits := allDigits_repr d.coefficient
  have value : digitsValue ((Nat.repr d.coefficient).toList.take 1 ++
      (Nat.repr d.coefficient).toList.drop 1) = d.coefficient := by
    rw [List.take_append_drop, digitsValue_repr]
  have length := List.length_drop (i := 1) (l := (Nat.repr d.coefficient).toList)
  have positive := List.length_pos_of_ne_nil (repr_ne_nil d.coefficient)
  obtain ⟨rest, hrest, power⟩ :=
    exists_readExponent? (d.exponent + (Nat.repr d.coefficient).toList.length - 1)
  have ends : EndsDigits ('e' :: rest) := endsDigits_cons (by decide)
  unfold scientific
  dsimp only
  rw [String.append_assoc, String.toList_append, hrest, String.toList_append, String.toList_ofList]
  -- A single digit has no point behind it.
  split
  · next alone =>
    rw [List.isEmpty_iff] at alone
    rw [alone, List.append_nil] at value
    rw [alone, List.length_nil] at length
    rw [String.toList_empty, List.append_nil, numeralValue_whole (digits.take 1) ends (by simp),
      value, power, Option.getD_some, Digits.value]
    congr 2
    omega
  · simp only [String.toList_append, String.toList_ofList, toList_point, List.append_assoc,
      List.cons_append, List.nil_append]
    rw [numeralValue_point (digits.take 1) (digits.drop 1) ends, value, power, Option.getD_some,
      Digits.value, length]
    congr 2
    omega

end Cohort.Decimal
