import Cohort.Proofs.Decimal.Rounding
import Cohort.Proofs.Decimal.Whole

/-!
# The range of doubles

A number is read as a finite double if and only if it is nearer to the largest double than to the
power of two behind it. This is so in whatever way the double is computed: the steps of the
computation keep the integer part of a number and tell whether half a unit is left of it, and this
is all that the last rounding depends on.

## Main definitions

* `Decimal.Approximates` — a mantissa is the integer part of a number, and its flags tell the rest
* `Decimal.overflow` — the least number that is too large for a double
* `Decimal.InRange` — a text stands for a number below it

## Main results

* `Decimal.isBounded_roundWithAccuracy` — a number is rounded to a finite double just below overflow
* `Decimal.isFinite_scaled` — a decimal is read as a finite double just below overflow
* `Decimal.isFinite_of_readFloat?` — and so is a text
-/

namespace Cohort.Decimal

open Float.Model
open Float.Model.UnpackedFloat

variable {x : Float} {m n : Nat} {e exponent : Int} {v : ℚ} {em : ExtendedMantissa}

/-! ## Finite doubles -/

theorem isFinite_iff (x : Float) :
    isFinite x = true ↔ x.toBits.toNat / 2 ^ 52 % 2 ^ 11 ≠ 2047 := by
  unfold isFinite binary
  rw [twoTo_eq 52, twoTo_eq 11]
  dsimp only
  by_cases scale : x.toBits.toNat / 2 ^ 52 % 2 ^ 11 = 2047
  · rw [if_pos scale]
    refine iff_of_false ?_ (not_not_intro scale)
    by_cases fraction : x.toBits.toNat % 2 ^ 52 = 0
    · rw [if_pos fraction]
      exact Bool.false_ne_true
    · rw [if_neg fraction]
      exact Bool.false_ne_true
  · rw [if_neg scale]
    refine iff_of_true ?_ scale
    by_cases small : x.toBits.toNat / 2 ^ 52 % 2 ^ 11 = 0
    · rw [if_pos small]
    · rw [if_neg small]

/-- A number that is packed as a finite double. -/
def IsBounded : UnpackedFloat → Prop
  | .zero _ => True
  | .finite _ _ exponent _ => exponent ≤ 971
  | .infinity _ => False
  | .notANumber => False

theorem scale_packComponents (sign : Sign) (scale : BitVec 11) (fraction : BitVec 52) :
    (packComponents .binary64 sign scale fraction).toNat / 2 ^ 52 % 2 ^ 11 = scale.toNat := by
  have bounded := scale.isLt
  have small := fraction.isLt
  rw [toNat_packComponents]
  omega

theorem isFinite_pack (u : UnpackedFloat) :
    isFinite (.ofModel (.pack u)) = true ↔ IsBounded u := by
  rw [isFinite_iff]
  change (UnpackedFloat.pack .binary64 u).toNat / 2 ^ 52 % 2 ^ 11 ≠ 2047 ↔ _
  have full : (-1 : BitVec 11).toNat = 2047 := rfl
  cases u with
  | infinity sign =>
    rw [UnpackedFloat.pack, packedInfinity, scale_packComponents]
    simp [IsBounded]
  | notANumber =>
    rw [UnpackedFloat.pack, packedNaN, scale_packComponents]
    simp [IsBounded]
  | zero sign =>
    rw [UnpackedFloat.pack, packedZero, scale_packComponents]
    simp [IsBounded]
  | finite sign magnitude exponent positive =>
    have bias : (Format.exponentBias .binary64 : Int) = 1023 := rfl
    rw [UnpackedFloat.pack]
    dsimp only
    rw [bias, IsBounded]
    split
    · next large =>
      rw [packedInfinity, scale_packComponents]
      refine iff_of_false (not_not_intro rfl) ?_
      omega
    · next small =>
      refine iff_of_true ?_ (by omega)
      split
      · rw [scale_packComponents, BitVec.toNat_ofNat]
        omega
      · rw [scale_packComponents, BitVec.toNat_ofNat]
        omega

theorem isFinite_iff_unpack (x : Float) : isFinite x = true ↔ IsBounded x.toModel.unpack := by
  rw [isFinite_iff]
  have scale := toNat_unpackExponent x.toBits.toBitVec
  rw [UInt64.toNat_toBitVec] at scale
  rw [← scale]
  change _ ↔ IsBounded (UnpackedFloat.unpack .binary64 x.toBits.toBitVec)
  have bounded := (@unpackExponent .binary64 x.toBits.toBitVec).isLt
  unfold UnpackedFloat.unpack
  dsimp only
  split
  · next all =>
    rw [all]
    refine iff_of_false (not_not_intro rfl) ?_
    split <;> exact id
  · next finite =>
    rw [← BitVec.toNat_inj] at finite
    refine iff_of_true finite ?_
    have bias : (Format.exponentBias .binary64 : Int) = 1023 := rfl
    change _ ≠ 2047 at finite
    rw [bias]
    split
    · next none =>
      rw [← BitVec.toNat_inj] at none
      change _ = 0 at none
      split
      · trivial
      · rw [IsBounded, none]
        decide
    · rw [IsBounded]
      omega

theorem isFinite_neg (x : Float) : isFinite (-x) = isFinite x := by
  have model : -x = .ofModel (.pack (UnpackedFloat.neg x.toModel.unpack)) := rfl
  rw [Bool.eq_iff_iff, model, isFinite_pack, isFinite_iff_unpack]
  cases x.toModel.unpack <;> rfl

/-! ## Shifting -/

/-- The mantissa is the integer part of the number, and the round bit tells whether half a unit is
left of it. -/
structure Approximates (em : ExtendedMantissa) (v : ℚ) : Prop where
  mantissa_le : em.mantissa ≤ v
  lt_succ : v < em.mantissa + 1
  roundBit : em.roundBit = true ↔ em.mantissa + 1 / 2 ≤ v

theorem Approximates.shiftRightOne (h : Approximates em v) :
    Approximates em.shiftRightOne (v / 2) := by
  obtain ⟨le, lt, -⟩ := h
  have parts : (em.mantissa : ℚ) = 2 * (em.mantissa / 2 : Nat) + (em.mantissa % 2 : Nat) := by
    exact_mod_cast (Nat.div_add_mod em.mantissa 2).symm
  rw [parts] at le lt
  rcases Nat.mod_two_eq_zero_or_one em.mantissa with even | odd
  · rw [even, Nat.cast_zero] at le lt
    refine ⟨?_, ?_, iff_of_false ?_ ?_⟩
    · change ((em.mantissa / 2 : Nat) : ℚ) ≤ _
      linarith
    · change _ < ((em.mantissa / 2 : Nat) : ℚ) + 1
      linarith
    · simp [ExtendedMantissa.shiftRightOne, even]
    · change ¬ ((em.mantissa / 2 : Nat) : ℚ) + 1 / 2 ≤ _
      linarith
  · rw [odd, Nat.cast_one] at le lt
    refine ⟨?_, ?_, iff_of_true ?_ ?_⟩
    · change ((em.mantissa / 2 : Nat) : ℚ) ≤ _
      linarith
    · change _ < ((em.mantissa / 2 : Nat) : ℚ) + 1
      linarith
    · simp [ExtendedMantissa.shiftRightOne, odd]
    · change ((em.mantissa / 2 : Nat) : ℚ) + 1 / 2 ≤ _
      linarith

theorem Approximates.shiftRight (h : Approximates em v) (n : Nat) :
    Approximates (em >>> n) (v / 2 ^ n) := by
  induction n with
  | zero =>
    rw [pow_zero, div_one]
    exact h
  | succ n ih =>
    rw [pow_succ, ← div_div]
    exact ih.shiftRightOne

theorem Approximates.exact (m : Nat) :
    Approximates (.ofMantissaAndAccuracy m .exact) m where
  mantissa_le := le_rfl
  lt_succ := lt_add_one _
  roundBit := by
    refine iff_of_false Bool.false_ne_true ?_
    change ¬ (m : ℚ) + 1 / 2 ≤ m
    linarith

/-- The quotient of two integers, with its remainder in place of the bits that are lost. -/
theorem Approximates.quotient (positive : 0 < n) (m : Nat) :
    Approximates (.ofMantissaAndAccuracy (m / n) (accuracyOfFraction (m % n) n)) (m / n) := by
  have unit : (0 : ℚ) < n := Nat.cast_pos.mpr positive
  have below : m % n < n := Nat.mod_lt m positive
  have value : (m : ℚ) / n = (m / n : Nat) + (m % n : Nat) / n := by
    have parts : (m : ℚ) = n * (m / n : Nat) + (m % n : Nat) := by
      exact_mod_cast (Nat.div_add_mod m n).symm
    rw [div_eq_iff unit.ne', add_mul, div_mul_cancel₀ _ unit.ne', mul_comm]
    exact parts
  have half : (1 / 2 : ℚ) ≤ (m % n : Nat) / n ↔ n ≤ 2 * (m % n) := by
    rw [le_div_iff₀ unit, ← Nat.cast_le (α := ℚ), Nat.cast_mul, Nat.cast_ofNat]
    constructor <;> intro h <;> linarith
  generalize m % n = r at *
  have mantissa : ∀ accuracy,
      (ExtendedMantissa.ofMantissaAndAccuracy (m / n) accuracy).mantissa = m / n := by
    rintro (_ | _ | _ | _) <;> rfl
  refine ⟨?_, ?_, ?_⟩
  · rw [mantissa, value, le_add_iff_nonneg_right]
    positivity
  · rw [mantissa, value]
    have less : (r : ℚ) / n < 1 := (div_lt_one unit).mpr (Nat.cast_lt.mpr below)
    linarith
  · rw [mantissa, value, add_le_add_iff_left, half]
    unfold accuracyOfFraction
    split
    · exact iff_of_false Bool.false_ne_true (by omega)
    · cases compared : compare (2 * r) n with
      | lt =>
        have less := Nat.compare_eq_lt.mp compared
        exact iff_of_false Bool.false_ne_true (by omega)
      | eq => exact iff_of_true rfl (by have := Nat.compare_eq_eq.mp compared; omega)
      | gt => exact iff_of_true rfl (by have := Nat.compare_eq_gt.mp compared; omega)

/-! ## Rounding -/

/-- An odd mantissa is rounded up just if half a unit is left of it. -/
theorem roundedMantissa_of_odd (odd : em.mantissa % 2 = 1) :
    em.roundedMantissa = em.mantissa + if em.roundBit then 1 else 0 := by
  obtain ⟨mantissa, roundBit, stickyBit⟩ := em
  cases roundBit <;> cases stickyBit <;>
    simp_all [ExtendedMantissa.roundedMantissa, ExtendedMantissa.accuracy,
      Accuracy.roundToNearestEven]

theorem roundedMantissa_bounds (em : ExtendedMantissa) :
    em.mantissa ≤ em.roundedMantissa ∧ em.roundedMantissa ≤ em.mantissa + 1 := by
  obtain ⟨mantissa, roundBit, stickyBit⟩ := em
  cases roundBit <;> cases stickyBit <;>
    simp only [ExtendedMantissa.roundedMantissa, ExtendedMantissa.accuracy,
      Accuracy.roundToNearestEven] <;> omega

theorem targetExponent_eq (m : Nat) (e : Int) :
    Format.targetExponent .binary64 (totalExponent m e) = max (m.log2 + e - 52) (-1074) := by
  change max ((m.log2 : Int) + 1 + e - 53) (-1074) = _
  omega

/-- A mantissa that is short enough stays. -/
theorem shiftToTargetExponent_short (short : m < 2 ^ 53) (normal : -1074 ≤ e) :
    shiftToTargetExponent .binary64 m e .exact = (⟨m, false, false⟩, e) := by
  have log : m.log2 ≤ 52 := by
    by_cases zero : m = 0
    · simp [zero]
    · exact Nat.le_of_lt_succ ((Nat.log2_lt zero).mpr short)
  have amount : (max (m.log2 + e - 52) (-1074) - e).toNat = 0 := by omega
  unfold shiftToTargetExponent
  rw [targetExponent_eq, shiftToExponent, amount, Int.natCast_zero, Int.add_zero]
  rfl

/-- A mantissa that has become too long by one bit is halved. -/
theorem shiftToTargetExponent_carry (normal : -1074 ≤ e) :
    shiftToTargetExponent .binary64 (2 ^ 53) e .exact = (⟨2 ^ 52, false, false⟩, e + 1) := by
  have amount : (max ((2 ^ 53 : Nat).log2 + e - 52) (-1074) - e).toNat = 1 := by
    rw [Nat.log2_two_pow]
    omega
  unfold shiftToTargetExponent
  rw [targetExponent_eq, shiftToExponent, amount]
  rfl

/-- The number is rounded to a finite double: it has a smaller exponent than the largest one, or is
not rounded up to the next one. -/
theorem isBounded_roundWithAccuracy_iff {first : ExtendedMantissa × Int} {accuracy : Accuracy}
    (sign : Sign) (shifted : shiftToTargetExponent .binary64 m e accuracy = first)
    (short : first.1.roundedMantissa ≤ 2 ^ 53) (normal : -1074 ≤ first.2) :
    IsBounded (roundWithAccuracy .binary64 sign m e accuracy) ↔
      first.1.roundedMantissa = 0 ∨ first.2 ≤ 970 ∨
        first.2 = 971 ∧ first.1.roundedMantissa < 2 ^ 53 := by
  unfold roundWithAccuracy
  rw [shifted]
  dsimp only
  by_cases carry : first.1.roundedMantissa = 2 ^ 53
  · rw [carry, shiftToTargetExponent_carry normal]
    simp only [dif_neg (show ¬ (2 ^ 52 = 0) by decide), IsBounded]
    omega
  · have less : first.1.roundedMantissa < 2 ^ 53 := Nat.lt_of_le_of_ne short carry
    rw [shiftToTargetExponent_short less normal]
    dsimp only
    split
    · next zero => exact iff_of_true trivial (.inl zero)
    · next positive =>
      rw [IsBounded]
      omega

/-- Half a unit above the largest double: what is rounded to a finite double is below. -/
def overflow : ℚ := 2 ^ 1024 - 2 ^ 970

theorem overflow_eq : overflow = (2 ^ 53 - 1 / 2) * 2 ^ (971 : Int) := by
  have first : (2 : ℚ) ^ 1024 = 2 ^ 53 * 2 ^ 971 := by rw [← pow_add]
  have second : (2 : ℚ) ^ 971 = 2 ^ 970 * 2 := pow_succ 2 970
  rw [overflow, zpow_ofNat, first, second]
  generalize (2 : ℚ) ^ 970 = u
  ring

theorem mantissa_ofMantissaAndAccuracy (m : Nat) (accuracy : Accuracy) :
    (ExtendedMantissa.ofMantissaAndAccuracy m accuracy).mantissa = m := by
  obtain _ | _ | _ | _ := accuracy <;> rfl

/-- A number is rounded up to one that is too large just if it is not below half a unit above the
largest double. -/
theorem Approximates.bounded_iff (h : Approximates em v) (less : v < 2 ^ 53)
    (full : -1074 < e → 2 ^ 52 ≤ v) :
    em.roundedMantissa = 0 ∨ e ≤ 970 ∨ e = 971 ∧ em.roundedMantissa < 2 ^ 53 ↔
      v * 2 ^ e < overflow := by
  obtain ⟨low, high, half⟩ := h
  obtain ⟨le_rounded, rounded_le⟩ := roundedMantissa_bounds em
  have unit : (0 : ℚ) < 2 ^ e := by positivity
  rw [overflow_eq]
  rcases lt_trichotomy e 971 with below | rfl | above
  · refine iff_of_true (.inr (.inl (by omega))) ?_
    have scaled : (2 : ℚ) ^ (971 : Int) = 2 ^ (970 : Int) * 2 := zpow_add_one₀ (by norm_num) 970
    have positive : (0 : ℚ) < 2 ^ (970 : Int) := by positivity
    have exponent : (2 : ℚ) ^ e ≤ 2 ^ (970 : Int) := zpow_le_zpow_right₀ (by norm_num) (by omega)
    calc v * 2 ^ e < 2 ^ 53 * 2 ^ e := mul_lt_mul_of_pos_right less unit
      _ ≤ 2 ^ 53 * 2 ^ (970 : Int) := mul_le_mul_of_nonneg_left exponent (by positivity)
      _ < (2 ^ 53 - 1 / 2) * 2 ^ (971 : Int) := by
        rw [scaled]
        generalize (2 : ℚ) ^ (970 : Int) = u at positive
        linarith
  · have large := full (by decide)
    have bounded : em.mantissa < 2 ^ 53 := by exact_mod_cast low.trans_lt less
    have reached : 2 ^ 52 ≤ em.mantissa := by
      have size : (2 : ℚ) ^ 52 < em.mantissa + 1 := large.trans_lt high
      have size : 2 ^ 52 < em.mantissa + 1 := by exact_mod_cast size
      omega
    rw [mul_lt_mul_iff_left₀ unit]
    have only : em.roundedMantissa = 0 ∨ (971 : Int) ≤ 970 ∨ (971 : Int) = 971 ∧
        em.roundedMantissa < 2 ^ 53 ↔ em.roundedMantissa < 2 ^ 53 := by omega
    rw [only]
    by_cases last : em.mantissa = 2 ^ 53 - 1
    -- The largest magnitude is odd, so that a tie is rounded up.
    · have rest : em.roundBit = true ↔ (2 : ℚ) ^ 53 - 1 / 2 ≤ v := by
        rw [half, last]
        norm_num
      rw [roundedMantissa_of_odd (by omega), last, ← not_le (a := (2 : ℚ) ^ 53 - 1 / 2), ← rest]
      cases em.roundBit <;> simp
    · refine iff_of_true (by omega) ?_
      have size : (em.mantissa : ℚ) + 1 ≤ 2 ^ 53 - 1 := by
        rw [le_sub_iff_add_le]
        exact_mod_cast (by omega : em.mantissa + 1 + 1 ≤ 2 ^ 53)
      linarith
  · have large := full (by omega)
    have reached : 2 ^ 52 ≤ em.roundedMantissa := by
      have size : (2 : ℚ) ^ 52 < em.mantissa + 1 := large.trans_lt high
      have size : 2 ^ 52 < em.mantissa + 1 := by exact_mod_cast size
      omega
    refine iff_of_false (by omega) (not_lt.mpr ?_)
    have scaled : (2 : ℚ) ^ (972 : Int) = 2 ^ (971 : Int) * 2 := zpow_add_one₀ (by norm_num) 971
    have positive : (0 : ℚ) < 2 ^ (971 : Int) := by positivity
    have exponent : (2 : ℚ) ^ (972 : Int) ≤ 2 ^ e := zpow_le_zpow_right₀ (by norm_num) (by omega)
    calc (2 ^ 53 - 1 / 2) * 2 ^ (971 : Int) ≤ 2 ^ 52 * 2 ^ (972 : Int) := by
          rw [scaled]
          generalize (2 : ℚ) ^ (971 : Int) = u at positive
          linarith
      _ ≤ 2 ^ 52 * 2 ^ e := mul_le_mul_of_nonneg_left exponent (by positivity)
      _ ≤ v * 2 ^ e := mul_le_mul_of_nonneg_right large unit.le

/-- A number is rounded to a finite double just if it is below half a unit above the largest one. -/
theorem isBounded_roundWithAccuracy {accuracy : Accuracy} (sign : Sign)
    (approx : Approximates (.ofMantissaAndAccuracy m accuracy) v)
    (wide : 52 ≤ m.log2 ∨ e ≤ -1074) :
    IsBounded (roundWithAccuracy .binary64 sign m e accuracy) ↔ v * 2 ^ e < overflow := by
  obtain ⟨k, hk⟩ : ∃ k : Nat, k = (max (m.log2 + e - 52) (-1074) - e).toNat := ⟨_, rfl⟩
  obtain ⟨em, hem⟩ : ∃ em, em = ExtendedMantissa.ofMantissaAndAccuracy m accuracy >>> k := ⟨_, rfl⟩
  have shifted : shiftToTargetExponent .binary64 m e accuracy = (em, e + k) := by
    unfold shiftToTargetExponent
    rw [targetExponent_eq, shiftToExponent, ← hk, hem]
  have shifted_approx : Approximates em (v / 2 ^ k) := hem ▸ approx.shiftRight k
  have value : v * 2 ^ e = v / 2 ^ k * 2 ^ (e + k) := by
    rw [zpow_add₀ (by norm_num), zpow_natCast, mul_comm ((2 : ℚ) ^ e), ← mul_assoc,
      div_mul_cancel₀ _ (by positivity)]
  obtain ⟨low, high, -⟩ := approx
  rw [mantissa_ofMantissaAndAccuracy] at low high
  -- What is left of the mantissa has at most 53 bits, and no fewer where the exponent is larger
  -- than the smallest one.
  have less : v / 2 ^ k < 2 ^ 53 := by
    have size : m + 1 ≤ 2 ^ (53 + k) := by
      have log : m < 2 ^ (m.log2 + 1) := Nat.lt_log2_self
      exact log.trans_le (Nat.pow_le_pow_right (by decide) (by omega))
    rw [div_lt_iff₀ (by positivity), ← pow_add]
    exact high.trans_le (by exact_mod_cast size)
  have full : -1074 < e + k → 2 ^ 52 ≤ v / 2 ^ k := by
    intro normal
    have nonzero : m ≠ 0 := by
      rintro rfl
      rw [Nat.log2_zero] at wide hk
      omega
    have size : 2 ^ (52 + k) ≤ m := by
      have log : 2 ^ m.log2 ≤ m := Nat.log2_self_le nonzero
      exact (Nat.pow_le_pow_right (by decide) (by omega)).trans log
    rw [le_div_iff₀ (by positivity), ← pow_add]
    exact le_trans (by exact_mod_cast size) low
  have bounded : em.roundedMantissa ≤ 2 ^ 53 := by
    have mantissa : em.mantissa < 2 ^ 53 := by
      exact_mod_cast shifted_approx.mantissa_le.trans_lt less
    have rounded := (roundedMantissa_bounds em).2
    omega
  rw [isBounded_roundWithAccuracy_iff sign shifted bounded (by dsimp only; omega), value]
  exact shifted_approx.bounded_iff less full

/-! ## Products and quotients -/

section Arithmetic

variable {sign sign' : Sign} {magnitude magnitude' : Nat} {exponent' : Int}

/-- A product is finite just if it is in the range. -/
theorem isBounded_mul (positive : 0 < magnitude) (positive' : 0 < magnitude')
    (wide : 2 ^ 52 ≤ magnitude * magnitude') :
    IsBounded (UnpackedFloat.mul .binary64 (.finite sign magnitude exponent positive)
        (.finite sign' magnitude' exponent' positive')) ↔
      (magnitude * magnitude' : ℚ) * 2 ^ (exponent + exponent') < overflow := by
  have nonzero : magnitude * magnitude' ≠ 0 := by positivity
  rw [← Nat.cast_mul]
  exact isBounded_roundWithAccuracy _ (.exact _) (.inl ((Nat.le_log2 nonzero).mpr wide))

/-- The dividend is shifted so far that the quotient has enough bits. -/
theorem exists_divCore_eq (exponent exponent' : Int) (positive : 0 < magnitude)
    (positive' : 0 < magnitude') :
    ∃ k : Nat, divCore .binary64 magnitude exponent magnitude' exponent' =
        (magnitude * 2 ^ k / magnitude', exponent - exponent' - k,
          accuracyOfFraction (magnitude * 2 ^ k % magnitude') magnitude') ∧
      (52 ≤ (magnitude * 2 ^ k / magnitude').log2 ∨ exponent - exponent' - k ≤ -1074) := by
  have target : Format.targetExponent .binary64
      (totalExponent magnitude exponent - totalExponent magnitude' exponent') =
      max (magnitude.log2 - magnitude'.log2 + (exponent - exponent') - 53) (-1074) := by
    change max ((magnitude.log2 + 1 + exponent) - (magnitude'.log2 + 1 + exponent') - 53 : Int)
      (-1074) = _
    omega
  obtain ⟨t, ht⟩ : ∃ t, t = min (exponent - exponent')
      (max (magnitude.log2 - magnitude'.log2 + (exponent - exponent') - 53) (-1074)) := ⟨_, rfl⟩
  obtain ⟨k, hk⟩ : ∃ k : Nat, (k : Int) = exponent - exponent' - t :=
    ⟨(exponent - exponent' - t).toNat, by omega⟩
  have shift : (exponent - exponent' - t).toNat = k := by omega
  refine ⟨k, ?_, or_iff_not_imp_right.mpr fun normal => ?_⟩
  · unfold divCore
    rw [target, ← ht]
    dsimp only
    rw [shift, Nat.shiftLeft_eq, hk, Int.sub_sub_self]
  · have long : magnitude'.log2 + 1 + 52 ≤ magnitude.log2 + k := by omega
    have less : magnitude' < 2 ^ (magnitude'.log2 + 1) := Nat.lt_log2_self
    have reached : 2 ^ magnitude.log2 ≤ magnitude := Nat.log2_self_le positive.ne'
    have quotient : 2 ^ 52 ≤ magnitude * 2 ^ k / magnitude' := by
      rw [Nat.le_div_iff_mul_le positive']
      calc 2 ^ 52 * magnitude' ≤ 2 ^ 52 * 2 ^ (magnitude'.log2 + 1) :=
            Nat.mul_le_mul_left _ less.le
        _ = 2 ^ (magnitude'.log2 + 1 + 52) := by rw [← Nat.pow_add, Nat.add_comm]
        _ ≤ 2 ^ (magnitude.log2 + k) := Nat.pow_le_pow_right (by decide) long
        _ = 2 ^ magnitude.log2 * 2 ^ k := Nat.pow_add ..
        _ ≤ magnitude * 2 ^ k := Nat.mul_le_mul_right _ reached
    exact (Nat.le_log2 (by omega)).mpr quotient

/-- A quotient is finite just if it is in the range. -/
theorem isBounded_div (positive : 0 < magnitude) (positive' : 0 < magnitude') :
    IsBounded (UnpackedFloat.div .binary64 (.finite sign magnitude exponent positive)
        (.finite sign' magnitude' exponent' positive')) ↔
      (magnitude / magnitude' : ℚ) * 2 ^ (exponent - exponent') < overflow := by
  obtain ⟨k, core, wide⟩ := exists_divCore_eq exponent exponent' positive positive'
  have rounded := isBounded_roundWithAccuracy (sign / sign')
    (.quotient positive' (magnitude * 2 ^ k)) wide
  have value : ((magnitude * 2 ^ k : Nat) / magnitude' : ℚ) * 2 ^ (exponent - exponent' - k) =
      magnitude / magnitude' * 2 ^ (exponent - exponent') := by
    rw [zpow_sub₀ (by norm_num), zpow_natCast, Nat.cast_mul, Nat.cast_pow, Nat.cast_ofNat]
    field_simp
  rw [UnpackedFloat.div, core, ← value]
  exact rounded

end Arithmetic

/-! ## Decimals -/

theorem two_pow_le_overflow : (2 : ℚ) ^ 1000 ≤ overflow := by
  have first : (2 : ℚ) ^ 1024 = 2 ^ 970 * 2 ^ 54 := by rw [← pow_add]
  have second : (2 : ℚ) ^ 1000 = 2 ^ 970 * 2 ^ 30 := by rw [← pow_add]
  have positive : (0 : ℚ) < 2 ^ 970 := by positivity
  rw [overflow, first, second]
  generalize (2 : ℚ) ^ 970 = u at positive
  linarith

/-- A number of moderate size is in the range. -/
theorem lt_overflow {k : Nat} (moderate : k ≤ 1000) (h : v < 2 ^ k) : v < overflow :=
  calc v < 2 ^ k := h
    _ ≤ 2 ^ 1000 := pow_le_pow_right₀ (by norm_num) moderate
    _ ≤ overflow := two_pow_le_overflow

theorem mul_lt_overflow {k j : Nat} (moderate : k + j ≤ 1000) (hv : v < 2 ^ k) (he : e ≤ j) :
    v * 2 ^ e < overflow := by
  refine lt_overflow moderate ?_
  have exponent : (2 : ℚ) ^ e ≤ 2 ^ (j : Int) := zpow_le_zpow_right₀ (by norm_num) he
  calc v * 2 ^ e < 2 ^ k * 2 ^ e := mul_lt_mul_of_pos_right hv (by positivity)
    _ ≤ 2 ^ k * 2 ^ (j : Int) := mul_le_mul_of_nonneg_left exponent (by positivity)
    _ = 2 ^ (k + j) := by rw [zpow_natCast, pow_add]

/-- The double that a decimal is read as is finite just if the decimal is in the range. Very small
decimals count as zero without being computed. -/
theorem isBounded_ofScientific (nonzero : m ≠ 0) (small : e ≤ 400) :
    IsBounded (UnpackedFloat.ofScientific .binary64 m e) ↔ (m : ℚ) * 10 ^ e < overflow := by
  have bits : (2 ^ Format.exponentBits .binary64 : Int) = 2048 := rfl
  have precision : Format.mantissaBits .binary64 = 53 := rfl
  unfold UnpackedFloat.ofScientific
  rw [dif_neg nonzero, bits, if_neg (by omega)]
  split
  · next tiny =>
    refine iff_of_true trivial (lt_overflow (k := 0) (by decide) ?_)
    have size : (m : ℚ) < 10 ^ (m.log2 + 1) := by
      have log : m < 10 ^ (m.log2 + 1) :=
        Nat.lt_log2_self.trans_le (Nat.pow_le_pow_left (by decide) _)
      exact_mod_cast log
    calc (m : ℚ) * 10 ^ e < 10 ^ (m.log2 + 1) * 10 ^ e :=
          mul_lt_mul_of_pos_right size (by positivity)
      _ = 10 ^ ((m.log2 + 1 : Nat) + e) := by rw [zpow_add₀ (by norm_num), zpow_natCast]
      _ ≤ 10 ^ (0 : Int) := zpow_le_zpow_right₀ (by norm_num) (by omega)
      _ = 2 ^ 0 := by norm_num
  · split
    · next nonneg =>
      obtain ⟨places, rfl⟩ := Int.eq_ofNat_of_zero_le nonneg
      have value : ((m * 2 ^ 53 : Nat) * (10 ^ places : Nat) : ℚ) * 2 ^ (-53 + 0 : Int) =
          m * 10 ^ (places : Int) := by
        rw [add_zero, zpow_neg, zpow_ofNat, zpow_natCast]
        push_cast
        field_simp
        norm_num
      have wide : 2 ^ 52 ≤ m * 2 ^ 53 * 10 ^ places := by
        have one : 1 ≤ m * 10 ^ places := Nat.mul_pos (by omega) (by positivity)
        calc 2 ^ 52 ≤ 1 * 2 ^ 53 := by decide
          _ ≤ m * 10 ^ places * 2 ^ 53 := Nat.mul_le_mul_right _ one
          _ = m * 2 ^ 53 * 10 ^ places := by ring
      simp only [precision, Nat.shiftLeft_eq, Int.toNat_natCast]
      rw [isBounded_mul _ _ wide, ← value]
      rfl
    · next negative =>
      obtain ⟨places, hplaces⟩ := Int.eq_ofNat_of_zero_le (show 0 ≤ -e by omega)
      have value : (m / (10 ^ places : Nat) : ℚ) * 2 ^ (0 - 0 : Int) = m * 10 ^ e := by
        rw [show e = -places by omega, zpow_neg, zpow_natCast, sub_self, zpow_zero, mul_one]
        push_cast
        exact div_eq_mul_inv _ _
      simp only [hplaces, Int.toNat_natCast]
      rw [isBounded_div, value]

/-- The powers of ten that are doubles, with their values. -/
theorem exists_binary_powerOfTen : ∀ (places : Nat)
    (h : places < Float.exactlyRepresentablePowersOfTen.size),
    ∃ magnitude exponent, binary Float.exactlyRepresentablePowersOfTen[places] =
        .finite false magnitude exponent ∧
      2 ^ 52 ≤ magnitude ∧ -52 ≤ exponent ∧ exponent ≤ 21 := by
  have all : ∀ places : Fin Float.exactlyRepresentablePowersOfTen.size,
      binary Float.exactlyRepresentablePowersOfTen[places] = .finite false
          (10 ^ places.val * 2 ^ 52 / 2 ^ (10 ^ places.val).log2)
          ((10 ^ places.val).log2 - 52 : Int) ∧
        2 ^ 52 ≤ 10 ^ places.val * 2 ^ 52 / 2 ^ (10 ^ places.val).log2 ∧
        -52 ≤ ((10 ^ places.val).log2 - 52 : Int) ∧ ((10 ^ places.val).log2 - 52 : Int) ≤ 21 := by
    decide +kernel
  exact fun places h => ⟨_, _, all ⟨places, h⟩⟩

/-- A short number is multiplied or divided by a small power of ten without leaving the range. -/
theorem isFinite_of_short {p : Float} (nonzero : m ≠ 0) (short : m < 2 ^ 53)
    (value : binary p = .finite false n e) (full : 2 ^ 52 ≤ n) (low : -52 ≤ e) (high : e ≤ 21) :
    isFinite (m.toUInt64.toFloat / p) = true ∧ isFinite (m.toUInt64.toFloat * p) = true := by
  have read := binary_toFloat nonzero short
  have full' := full_scaledUp nonzero short
  have unpacked := unpack_eq read full' (by omega)
  have unpacked' := unpack_eq value full (by omega)
  have quotient : m.toUInt64.toFloat / p = .ofModel (.pack (UnpackedFloat.div .binary64
      m.toUInt64.toFloat.toModel.unpack p.toModel.unpack)) := rfl
  have product : m.toUInt64.toFloat * p = .ofModel (.pack (UnpackedFloat.mul .binary64
      m.toUInt64.toFloat.toModel.unpack p.toModel.unpack)) := rfl
  rw [quotient, product, unpacked, unpacked', isFinite_pack, isFinite_pack, isBounded_div,
    isBounded_mul _ _ (full'.trans (Nat.le_mul_of_pos_right _ (by omega)))]
  have size : (scaledUp m : ℚ) < 2 ^ 53 := by
    exact_mod_cast (isStandard_scaledUp nonzero short).magnitude_lt
  have size' : (n : ℚ) < 2 ^ 53 := by exact_mod_cast (isStandard_of_binary value).magnitude_lt
  have one_le : (1 : ℚ) ≤ n := by exact_mod_cast (show 1 ≤ n by omega)
  have exponent : scaledExponent m ≤ 0 := by
    unfold scaledExponent
    omega
  constructor
  · refine mul_lt_overflow (k := 53) (j := 52) (by decide) ?_ (by omega)
    exact (div_le_self (Nat.cast_nonneg _) one_le).trans_lt size
  · refine mul_lt_overflow (k := 106) (j := 21) (by decide) ?_ (by omega)
    calc (scaledUp m * n : ℚ) < 2 ^ 53 * 2 ^ 53 :=
          mul_lt_mul'' size size' (Nat.cast_nonneg _) (Nat.cast_nonneg _)
      _ = 2 ^ 106 := by rw [← pow_add]

theorem isFinite_ofScientific (nonzero : m ≠ 0) (small : e ≤ 400) :
    isFinite (Float.ofScientific m (decide (e < 0)) e.natAbs) = true ↔
      (m : ℚ) * 10 ^ e < overflow := by
  have signed : (if decide (e < 0) = true then Int.negOfNat e.natAbs else Int.ofNat e.natAbs) =
      e := by
    split
    · next negative =>
      rw [decide_eq_true_eq] at negative
      rw [Int.negOfNat_eq, Int.ofNat_eq_natCast]
      omega
    · next nonneg =>
      rw [decide_eq_true_eq] at nonneg
      exact Int.natAbs_of_nonneg (not_lt.mp nonneg)
  rw [Float.ofScientific]
  split
  · next fast =>
    obtain ⟨short, places⟩ := fast
    obtain ⟨magnitude, exponent, value, full, low, high⟩ :=
      exists_binary_powerOfTen e.natAbs (Nat.lt_succ_of_le places)
    obtain ⟨quotient, product⟩ := isFinite_of_short nonzero short value full low high
    refine iff_of_true ?_ ?_
    · split
      · exact quotient
      · exact product
    · have size : (m : ℚ) < 2 ^ 53 := by exact_mod_cast short
      have power : (10 : ℚ) ^ e ≤ 10 ^ (22 : Int) := zpow_le_zpow_right₀ (by norm_num) (by omega)
      refine lt_overflow (k := 127) (by decide) ?_
      calc (m : ℚ) * 10 ^ e < 2 ^ 53 * 10 ^ e := mul_lt_mul_of_pos_right size (by positivity)
        _ ≤ 2 ^ 53 * 10 ^ (22 : Int) := mul_le_mul_of_nonneg_left power (by positivity)
        _ < 2 ^ 127 := by norm_num
  · rw [signed]
    exact (isFinite_pack _).trans (isBounded_ofScientific nonzero small)

theorem overflow_le : overflow ≤ 10 ^ 400 := by
  have eight : (2 : ℚ) ^ 1024 ≤ 8 ^ 342 := by
    calc (2 : ℚ) ^ 1024 ≤ 2 ^ (3 * 342) := pow_le_pow_right₀ (by norm_num) (by decide)
      _ = 8 ^ 342 := by
        rw [pow_mul]
        norm_num
  calc overflow ≤ 2 ^ 1024 := sub_le_self _ (by positivity)
    _ ≤ 8 ^ 342 := eight
    _ ≤ 10 ^ 342 := pow_le_pow_left₀ (by norm_num) (by norm_num) _
    _ ≤ 10 ^ 400 := pow_le_pow_right₀ (by norm_num) (by decide)

/-- The number of digits of a number tells its size. -/
theorem size_of_length_repr (nonzero : m ≠ 0) {length : Nat}
    (digits : (Nat.repr m).length = length + 1) : 10 ^ length ≤ m ∧ m < 10 ^ (length + 1) := by
  refine ⟨?_, (Nat.length_repr_le_iff (Nat.succ_pos _)).mp digits.le⟩
  cases length with
  | zero => exact Nat.one_le_iff_ne_zero.mpr nonzero
  | succ length =>
    by_contra less
    have short := (Nat.length_repr_le_iff (Nat.succ_pos length)).mpr (not_le.mp less)
    omega

/-- A decimal is read as a finite double just if it is in the range. -/
theorem isFinite_scaled (negative : Bool) (coefficient : Nat) (exponent : Int) :
    isFinite (scaled negative coefficient exponent) = true ↔
      (coefficient : ℚ) * 10 ^ exponent < overflow := by
  have sign : scaled negative coefficient exponent =
      if negative = true then -scaled false coefficient exponent
      else scaled false coefficient exponent := rfl
  have unsigned : isFinite (scaled negative coefficient exponent) =
      isFinite (scaled false coefficient exponent) := by
    rw [sign]
    split
    · exact isFinite_neg _
    · rfl
  have zero : isFinite 0.0 = true := by decide +kernel
  have infinite : isFinite infinity = false := by decide +kernel
  rw [unsigned, scaled, if_neg Bool.false_ne_true]
  by_cases nothing : coefficient = 0
  · rw [if_pos nothing, nothing, Nat.cast_zero, zero_mul]
    exact iff_of_true zero (lt_overflow (k := 0) (by decide) (by norm_num))
  obtain ⟨length, digits⟩ : ∃ length, (Nat.repr coefficient).length = length + 1 := by
    have some_digit := repr_ne_nil coefficient
    rw [← List.length_pos_iff, String.length_toList] at some_digit
    exact ⟨_, (Nat.succ_pred_eq_of_pos some_digit).symm⟩
  obtain ⟨low, high⟩ := size_of_length_repr nothing digits
  have low : (10 : ℚ) ^ length ≤ coefficient := by exact_mod_cast low
  have high : (coefficient : ℚ) < 10 ^ (length + 1) := by exact_mod_cast high
  rw [if_neg nothing, digits]
  by_cases large : 400 < exponent + (length + 1 : Nat)
  · rw [if_pos large, infinite]
    refine iff_of_false Bool.false_ne_true (not_lt.mpr (overflow_le.trans ?_))
    calc (10 : ℚ) ^ 400 = 10 ^ (400 : Int) := (zpow_ofNat 10 400).symm
      _ ≤ 10 ^ (length + exponent) := zpow_le_zpow_right₀ (by norm_num) (by omega)
      _ = 10 ^ length * 10 ^ exponent := by rw [zpow_add₀ (by norm_num), zpow_natCast]
      _ ≤ coefficient * 10 ^ exponent := mul_le_mul_of_nonneg_right low (by positivity)
  rw [if_neg large]
  by_cases tiny : exponent + (length + 1 : Nat) < -400
  · rw [if_pos tiny]
    refine iff_of_true zero (lt_overflow (k := 0) (by decide) ?_)
    calc (coefficient : ℚ) * 10 ^ exponent < 10 ^ (length + 1) * 10 ^ exponent :=
          mul_lt_mul_of_pos_right high (by positivity)
      _ = 10 ^ ((length + 1 : Nat) + exponent) := by rw [zpow_add₀ (by norm_num), zpow_natCast]
      _ ≤ 10 ^ (0 : Int) := zpow_le_zpow_right₀ (by norm_num) (by omega)
      _ = 2 ^ 0 := by norm_num
  · rw [if_neg tiny]
    exact isFinite_ofScientific nothing (by omega)

/-- Integers of 64 bits are in the range. -/
theorem isFinite_ofWhole {i : Int} (small : i.natAbs < 2 ^ 65) : isFinite (ofWhole i) = true := by
  rw [ofWhole, isFinite_scaled, zpow_zero, mul_one]
  exact lt_overflow (k := 65) (by decide) (by exact_mod_cast small)

/-! ## Texts -/

/-- The text names no infinite or undefined number, and the number that it stands for is in the
range. -/
def InRange (s : String) : Prop :=
  let body := (spanSign s.toList).2
  String.ofList (body.map Char.toLower) ∉ ["inf", "infinity", "nan"] ∧ numeralValue body < overflow

theorem isFinite_of_readDecimal? {negative : Bool} {cs : List Char}
    (h : readDecimal? negative cs = some x) : isFinite x = true ↔ numeralValue cs < overflow := by
  have scaled_iff : ∀ (whole fraction rest : List Char),
      (if (whole.isEmpty && fraction.isEmpty) = true then none
        else (readExponent? rest).map fun power =>
          scaled negative (digitsValue (whole ++ fraction)) (power - fraction.length)) = some x →
      (isFinite x = true ↔ (digitsValue (whole ++ fraction) : ℚ) *
        10 ^ ((readExponent? rest).getD 0 - fraction.length) < overflow) := by
    intro whole fraction rest h
    split at h
    · cases h
    · obtain ⟨power, read, rfl⟩ := Option.map_eq_some_iff.mp h
      rw [read]
      exact isFinite_scaled ..
  exact scaled_iff _ _ _ h

/-- A text is read as a finite double just if it is in the range. -/
theorem isFinite_of_readFloat? {s : String} (h : readFloat? s = some x) :
    isFinite x = true ↔ InRange s := by
  have special : ∀ (negative : Bool) (y : Float), isFinite y = false →
      some (if negative = true then -y else y) = some x → ¬ isFinite x = true := by
    rintro negative y not_finite same finite
    obtain rfl := Option.some.inj same
    cases negative with
    | false => rw [if_neg Bool.false_ne_true, not_finite] at finite; cases finite
    | true => rw [if_pos rfl, isFinite_neg, not_finite] at finite; cases finite
  unfold readFloat? at h
  unfold InRange
  dsimp only at h ⊢
  split at h
  · next named =>
    refine iff_of_false (special _ infinity (by decide +kernel) h) fun range => range.1 ?_
    simp only [Bool.or_eq_true, beq_iff_eq] at named
    simp only [List.mem_cons]
    tauto
  · next not_infinite =>
    split at h
    · next named =>
      refine iff_of_false (special _ undefinedNumber (by decide +kernel) h) fun range => range.1 ?_
      simp only [beq_iff_eq] at named
      simp only [List.mem_cons]
      tauto
    · next not_undefined =>
      rw [isFinite_of_readDecimal? h, iff_and_self]
      intro _ named
      simp only [Bool.or_eq_true, beq_iff_eq, not_or] at not_infinite not_undefined
      simp only [List.mem_cons, List.not_mem_nil, or_false] at named
      tauto

end Cohort.Decimal
