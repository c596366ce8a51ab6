import Cohort.Decimal.Reader
import Cohort.Proofs.Decimal.Bits

/-!
# Integers as doubles

An integer of at most 53 bits is a double, and it is read as this double exactly: it is scaled up
to a full magnitude without a rounding, multiplied by one, and given its sign.

## Main results

* `Decimal.roundWithAccuracy_exact` — rounding leaves full magnitudes alone
* `Decimal.binary_ofWhole` — the value of an integer as a double
* `Decimal.wholeValue?_ofWhole` — the integer can be read off the double
-/

namespace Cohort.Decimal

open Float.Model
open Float.Model.UnpackedFloat

variable {x : Float} {negative : Bool} {magnitude m n : Nat} {exponent i : Int}

/-! ## Exact rounding -/

/-- Halving drops nothing of a multiple of a power of two. -/
theorem shiftRight_exact (m n : Nat) :
    (⟨m * 2 ^ n, false, false⟩ : ExtendedMantissa) >>> n = ⟨m, false, false⟩ := by
  change n.repeat ExtendedMantissa.shiftRightOne _ = _
  induction n generalizing m with
  | zero => simp [Nat.repeat]
  | succ n ih =>
    have halved := ih (m * 2)
    rw [Nat.mul_assoc, ← Nat.pow_succ'] at halved
    rw [Nat.repeat, halved]
    simp [ExtendedMantissa.shiftRightOne]

theorem log2_eq (low : 2 ^ n ≤ m) (high : m < 2 ^ (n + 1)) : m.log2 = n := by
  have nonzero : m ≠ 0 := Nat.ne_of_gt (Nat.lt_of_lt_of_le (Nat.two_pow_pos n) low)
  have reached := (Nat.le_log2 nonzero).mpr low
  have bounded := (Nat.log2_lt nonzero).mpr high
  omega

/-- Zeros at the end of a magnitude are taken off by shifting. -/
theorem shiftToTargetExponent_exact (standard : IsStandard magnitude exponent)
    (full : 2 ^ 52 ≤ magnitude) (n : Nat) :
    shiftToTargetExponent .binary64 (magnitude * 2 ^ n) (exponent - n) .exact =
      (⟨magnitude, false, false⟩, exponent) := by
  have log : (magnitude * 2 ^ n).log2 = 52 + n := by
    refine log2_eq ?_ ?_
    · rw [Nat.pow_add]
      exact Nat.mul_le_mul_right _ full
    · rw [Nat.add_right_comm, Nat.pow_add]
      exact Nat.mul_lt_mul_of_pos_right standard.magnitude_lt (Nat.two_pow_pos n)
  have target :
      Format.targetExponent .binary64 (totalExponent (magnitude * 2 ^ n) (exponent - n)) =
        exponent := by
    have smallest := standard.le_exponent
    rw [totalExponent, log]
    change max (((52 + n : Nat) : Int) + 1 + (exponent - n) - 53) (-1074) = exponent
    omega
  have amount : (exponent - (exponent - n)).toNat = n := by omega
  unfold shiftToTargetExponent
  rw [target, shiftToExponent, amount, ExtendedMantissa.ofMantissaAndAccuracy, shiftRight_exact]
  simp

/-- Rounding leaves a full magnitude alone, apart from zeros at its end. -/
theorem roundWithAccuracy_exact (standard : IsStandard magnitude exponent)
    (full : 2 ^ 52 ≤ magnitude) (sign : Sign) (n : Nat) :
    roundWithAccuracy .binary64 sign (magnitude * 2 ^ n) (exponent - n) .exact =
      .finite sign magnitude exponent (by omega) := by
  have again := shiftToTargetExponent_exact standard full 0
  rw [Nat.pow_zero, Nat.mul_one, Int.natCast_zero, Int.sub_zero] at again
  unfold roundWithAccuracy
  rw [shiftToTargetExponent_exact standard full n]
  simp only [ExtendedMantissa.roundedMantissa, ExtendedMantissa.accuracy,
    Accuracy.roundToNearestEven, again]
  rw [dif_neg (by omega)]

/-! ## Packing and unpacking -/

/-- The sign of a number. -/
def signOf (negative : Bool) : Sign := if negative then .negative else .positive

theorem toNat_packComponents (sign : Sign) (scale : BitVec 11) (fraction : BitVec 52) :
    (packComponents .binary64 sign scale fraction).toNat =
      sign.toBitVec.toNat * 2 ^ 63 + scale.toNat * 2 ^ 52 + fraction.toNat := by
  rw [packComponents, BitVec.toNat_append, BitVec.toNat_append,
    ← Nat.shiftLeft_add_eq_or_of_lt scale.isLt, ← Nat.shiftLeft_add_eq_or_of_lt fraction.isLt,
    Nat.shiftLeft_eq, Nat.shiftLeft_eq]
  omega

theorem toNat_unpackSign (b : BitVec 64) :
    (@unpackSign .binary64 b).toNat = b.toNat / 2 ^ 63 % 2 := by
  simp [unpackSign, Nat.shiftRight_eq_div_pow]

/-- The value of a double with a full magnitude, read off its bits. -/
theorem binary_eq (standard : IsStandard magnitude exponent) (full : 2 ^ 52 ≤ magnitude)
    (bits : x.toBits.toNat =
      signBits negative + (exponent + 1075).toNat * 2 ^ 52 + (magnitude - 2 ^ 52)) :
    binary x = .finite negative magnitude exponent := by
  obtain ⟨bounded, smallest, largest, -⟩ := standard
  have sign : signBits negative = 0 ∧ negative = false ∨
      signBits negative = 2 ^ 63 ∧ negative = true := by
    cases negative
    · exact .inl ⟨rfl, rfl⟩
    · exact .inr ⟨rfl, rfl⟩
  have scale : x.toBits.toNat / 2 ^ 52 % 2 ^ 11 = (exponent + 1075).toNat := by omega
  have fraction : x.toBits.toNat % 2 ^ 52 = magnitude - 2 ^ 52 := by omega
  have first : decide (2 ^ 63 ≤ x.toBits.toNat) = negative := by
    rcases sign with ⟨none, rfl⟩ | ⟨one, rfl⟩
    · rw [decide_eq_false_iff_not]
      omega
    · rw [decide_eq_true_eq]
      omega
  unfold binary
  rw [twoTo_eq 52, twoTo_eq 11, twoTo_eq 63]
  dsimp only
  rw [scale, fraction, first, if_neg (by omega), if_neg (by omega), Nat.sub_add_cancel full,
    Int.toNat_of_nonneg (by omega), Int.add_sub_cancel]

/-- A full magnitude is packed without a loss. -/
theorem binary_pack (standard : IsStandard magnitude exponent) (full : 2 ^ 52 ≤ magnitude)
    (positive : 0 < magnitude) :
    binary (.ofModel (.pack (.finite (signOf negative) magnitude exponent positive))) =
      .finite negative magnitude exponent := by
  refine binary_eq standard full ?_
  obtain ⟨bounded, smallest, largest, -⟩ := standard
  have bias : (Format.exponentBias .binary64 : Int) = 1023 := rfl
  have bits : Format.mantissaBits .binary64 = 53 := rfl
  have sign : (signOf negative).toBitVec.toNat * 2 ^ 63 = signBits negative := by
    cases negative <;> rfl
  change (UnpackedFloat.pack .binary64
    (.finite (signOf negative) magnitude exponent positive)).toNat = _
  rw [UnpackedFloat.pack]
  dsimp only
  rw [bias, bits, log2_eq full bounded, if_neg (by omega), if_pos rfl, toNat_packComponents,
    BitVec.toNat_ofNat, BitVec.toNat_ofNat, sign]
  omega

/-- A double with a full magnitude is unpacked to its value. -/
theorem unpack_eq (h : binary x = .finite negative magnitude exponent)
    (full : 2 ^ 52 ≤ magnitude) (positive : 0 < magnitude) :
    x.toModel.unpack = .finite (signOf negative) magnitude exponent positive := by
  have range : x.toBits.toNat < 2 ^ 64 := x.toBits.toNat_lt
  have scale := toNat_unpackExponent x.toBits.toBitVec
  have fraction := toNat_unpackMantissa x.toBits.toBitVec
  have sign := toNat_unpackSign x.toBits.toBitVec
  rw [UInt64.toNat_toBitVec] at scale fraction sign
  unfold binary at h
  rw [twoTo_eq 52, twoTo_eq 11, twoTo_eq 63] at h
  dsimp only at h
  split at h
  · split at h <;> cases h
  rename_i finite
  split at h
  · cases h
    omega
  rename_i normal
  injection h with hsign hmagnitude hexponent
  have first : @unpackSign .binary64 x.toBits.toBitVec = 0#1 ↔ negative = false := by
    rw [← BitVec.toNat_inj, sign, ← hsign, decide_eq_false_iff_not]
    change _ = 0 ↔ _
    omega
  have sign_eq :
      Sign.ofBitVec (@unpackSign .binary64 x.toBits.toBitVec) = signOf negative := by
    rw [Sign.ofBitVec]
    cases negative with
    | false => rw [if_pos (first.mpr rfl)]; rfl
    | true => rw [if_neg (fun zero => by cases first.mp zero)]; rfl
  have magnitude_eq :
      (1#1 ++ @unpackMantissa .binary64 x.toBits.toBitVec).toNat = magnitude := by
    rw [BitVec.toNat_append, ← Nat.shiftLeft_add_eq_or_of_lt (unpackMantissa _).isLt, fraction,
      Nat.shiftLeft_eq, ← hmagnitude]
    change 1 * 2 ^ 52 + _ = _
    omega
  change UnpackedFloat.unpack .binary64 x.toBits.toBitVec = _
  unfold UnpackedFloat.unpack
  dsimp only
  rw [if_neg, if_neg]
  · simp only [magnitude_eq, sign_eq, scale]
    congr 1
  · rw [← BitVec.toNat_inj, scale]
    exact normal
  · rw [← BitVec.toNat_inj, scale]
    exact finite

theorem binary_neg (h : binary x = .finite negative magnitude exponent)
    (full : 2 ^ 52 ≤ magnitude) : binary (-x) = .finite (!negative) magnitude exponent := by
  have model : -x = .ofModel (.pack (UnpackedFloat.neg x.toModel.unpack)) := rfl
  have sign : -signOf negative = signOf !negative := by cases negative <;> rfl
  rw [model, unpack_eq h full (by omega), UnpackedFloat.neg, sign]
  exact binary_pack (isStandard_of_binary h) full _

/-- The bits of the number one. -/
private def oneBits : UInt64 := 0x3FF0000000000000

theorem binary_mul_one (h : binary x = .finite negative magnitude exponent)
    (full : 2 ^ 52 ≤ magnitude) :
    binary (x * .ofBits oneBits) = .finite negative magnitude exponent := by
  have standard := isStandard_of_binary h
  have one : binary (.ofBits oneBits) = .finite false (2 ^ 52) (-(52 : Nat)) := by decide +kernel
  have model : x * .ofBits oneBits = .ofModel (.pack (UnpackedFloat.mul .binary64 x.toModel.unpack
    (Float.ofBits oneBits).toModel.unpack)) := rfl
  have sign : signOf negative * signOf false = signOf negative := by cases negative <;> rfl
  rw [model, unpack_eq h full (by omega), unpack_eq one (by decide) (by decide), UnpackedFloat.mul,
    sign, ← Int.sub_eq_add_neg, roundWithAccuracy_exact standard full]
  exact binary_pack standard full _

/-! ## Integers -/

/-- A number of at most 53 bits, scaled up to a full magnitude. -/
def scaledUp (m : Nat) : Nat := m * 2 ^ (52 - m.log2)

/-- The exponent that goes with a magnitude that was scaled up. -/
def scaledExponent (m : Nat) : Int := -((52 - m.log2 : Nat) : Int)

theorem full_scaledUp (nonzero : m ≠ 0) (small : m < 2 ^ 53) : 2 ^ 52 ≤ scaledUp m := by
  have log : m.log2 < 53 := (Nat.log2_lt nonzero).mpr small
  calc 2 ^ 52 = 2 ^ m.log2 * 2 ^ (52 - m.log2) := by
        rw [← Nat.pow_add, Nat.add_sub_cancel' (Nat.le_of_lt_succ log)]
    _ ≤ m * 2 ^ (52 - m.log2) := Nat.mul_le_mul_right _ (Nat.log2_self_le nonzero)

theorem isStandard_scaledUp (nonzero : m ≠ 0) (small : m < 2 ^ 53) :
    IsStandard (scaledUp m) (scaledExponent m) where
  magnitude_lt := by
    have log : m.log2 < 53 := (Nat.log2_lt nonzero).mpr small
    calc m * 2 ^ (52 - m.log2) < 2 ^ (m.log2 + 1) * 2 ^ (52 - m.log2) :=
          Nat.mul_lt_mul_of_pos_right Nat.lt_log2_self (Nat.two_pow_pos _)
      _ = 2 ^ 53 := by
          rw [← Nat.pow_add]
          congr 1
          omega
  le_exponent := by
    unfold scaledExponent
    omega
  exponent_le := by
    unfold scaledExponent
    omega
  full := .inl (full_scaledUp nonzero small)

theorem round_eq (nonzero : m ≠ 0) (small : m < 2 ^ 53) (positive : 0 < scaledUp m) :
    UnpackedFloat.round .binary64 .positive m 0 =
      .finite (signOf false) (scaledUp m) (scaledExponent m) positive := by
  have log : m.log2 < 53 := (Nat.log2_lt nonzero).mpr small
  have target : Format.targetExponent .binary64 (totalExponent m 0) = scaledExponent m := by
    change max ((m.log2 : Int) + 1 + 0 - 53) (-1074) = -((52 - m.log2 : Nat) : Int)
    omega
  have amount : (0 - scaledExponent m).toNat = 52 - m.log2 := by
    unfold scaledExponent
    omega
  have exponent : 0 - ((52 - m.log2 : Nat) : Int) = scaledExponent m := Int.zero_sub _
  have rounded := roundWithAccuracy_exact (isStandard_scaledUp nonzero small)
    (full_scaledUp nonzero small) .positive 0
  rw [Nat.pow_zero, Nat.mul_one, Int.natCast_zero, Int.sub_zero] at rounded
  unfold UnpackedFloat.round
  simp only [target, decreaseExponent, amount, Nat.shiftLeft_eq, exponent]
  exact rounded

theorem binary_toFloat (nonzero : m ≠ 0) (small : m < 2 ^ 53) :
    binary m.toUInt64.toFloat = .finite false (scaledUp m) (scaledExponent m) := by
  have full := full_scaledUp nonzero small
  have positive : 0 < scaledUp m := by omega
  have read : m.toUInt64.toNat = m := by
    rw [Nat.toUInt64_eq, UInt64.toNat_ofNat']
    omega
  have above : compare ((m : Nat) : Int) 0 = .gt := by
    rw [Int.compare_eq_gt]
    omega
  have model : m.toUInt64.toFloat =
      .ofModel (.pack (.finite (signOf false) (scaledUp m) (scaledExponent m) positive)) := by
    change Float.ofModel
      (.pack (UnpackedFloat.normalize .binary64 (m.toUInt64.toNat : Int) 0 .positive)) = _
    rw [read, UnpackedFloat.normalize, above]
    dsimp only
    rw [Int.toNat_natCast, round_eq nonzero small]
  rw [model]
  exact binary_pack (isStandard_scaledUp nonzero small) full positive

theorem binary_ofScientific (nonzero : m ≠ 0) (small : m < 2 ^ 53) :
    binary (Float.ofScientific m false 0) =
      .finite false (scaledUp m) (scaledExponent m) := by
  rw [Float.ofScientific, dif_pos ⟨small, by decide⟩]
  exact binary_mul_one (binary_toFloat nonzero small) (full_scaledUp nonzero small)

/-- An integer of at most 53 bits is read exactly. -/
theorem binary_ofWhole (nonzero : i ≠ 0) (small : i.natAbs < 2 ^ 53) :
    binary (ofWhole i) =
      .finite (decide (i < 0)) (scaledUp i.natAbs) (scaledExponent i.natAbs) := by
  have nonzero_size : i.natAbs ≠ 0 := by omega
  have value := binary_ofScientific nonzero_size small
  have length : (Nat.repr i.natAbs).length ≤ 16 :=
    (Nat.length_repr_le_iff (by decide)).mpr (Nat.lt_of_lt_of_le small (by decide))
  have size : scaled false i.natAbs 0 = Float.ofScientific i.natAbs false 0 := by
    unfold scaled
    dsimp only
    rw [if_neg Bool.false_ne_true, if_neg nonzero_size, if_neg (by omega), if_neg (by omega)]
    rfl
  have sign : ∀ negative, scaled negative i.natAbs 0 =
      if negative = true then -scaled false i.natAbs 0 else scaled false i.natAbs 0 :=
    fun _ => rfl
  rw [ofWhole, sign, size]
  cases decide (i < 0) with
  | false => exact value
  | true => exact binary_neg value (full_scaledUp nonzero_size small)

/-- The integer can be read off the double. -/
theorem wholeValue?_ofWhole (small : i.natAbs < 2 ^ 53) : wholeValue? (ofWhole i) = some i := by
  by_cases zero : i = 0
  · subst zero
    decide +kernel
  · have sign : (if decide (i < 0) = true then -(i.natAbs : Int) else i.natAbs) = i := by
      simp only [decide_eq_true_eq]
      split <;> omega
    have size : (if 0 ≤ scaledExponent i.natAbs then
          some (scaledUp i.natAbs * twoTo (scaledExponent i.natAbs).toNat)
        else if scaledUp i.natAbs % twoTo (-scaledExponent i.natAbs).toNat = 0 then
          some (scaledUp i.natAbs / twoTo (-scaledExponent i.natAbs).toNat)
        else none) = some i.natAbs := by
      simp only [scaledUp, scaledExponent, twoTo_eq, Int.neg_neg, Int.toNat_natCast]
      generalize 52 - i.natAbs.log2 = places
      split
      · have none : places = 0 := by omega
        simp [none]
      · rw [Nat.mul_mod_left, if_pos rfl, Nat.mul_div_cancel _ (Nat.two_pow_pos places)]
    unfold wholeValue?
    rw [binary_ofWhole zero small]
    dsimp only
    rw [size]
    exact congrArg some sign

end Cohort.Decimal
