import Mathlib
import Cohort.Decimal.Binary
import Cohort.Proofs.Query.Alike

/-!
# Bits and values of doubles

The exact value of a double determines its bits, apart from nothing: even the zeros have
different values here, as the sign is part of the value, and there is only one undefined number.
In comparisons the two zeros are alike.

## Main definitions

* `Decimal.Binary.bits` — the bits of the double with a value
* `Decimal.IsStandard` — magnitudes and exponents that doubles have

## Main results

* `Decimal.binary_injective` — different doubles have different values
* `Decimal.isStandard_of_binary` — the magnitude and the exponent of a double
* `Decimal.alike_of_zero` — zeros compare alike
-/

namespace Cohort.Decimal

open Float.Model (UnpackedFloat)
open Float.Model.UnpackedFloat (unpackExponent unpackMantissa packedNaN)

variable {x y : Float} {negative negative' : Bool} {magnitude : Nat} {exponent exponent' : Int}

/-! ## Values determine bits -/

/-- The first bit. -/
def signBits (negative : Bool) : Nat := if negative then 2 ^ 63 else 0

/-- The bits of the double with a value. -/
def Binary.bits : Binary → Nat
  | .finite negative magnitude exponent =>
    signBits negative +
      if magnitude < 2 ^ 52 then magnitude
      else (exponent + 1075).toNat * 2 ^ 52 + (magnitude - 2 ^ 52)
  | .infinite negative => signBits negative + 2047 * 2 ^ 52
  | .undefined => 2047 * 2 ^ 52 + 2 ^ 51

theorem twoTo_eq (n : Nat) : twoTo n = 2 ^ n := rfl

theorem toNat_unpackExponent (b : BitVec 64) :
    (@unpackExponent .binary64 b).toNat = b.toNat / 2 ^ 52 % 2 ^ 11 := by
  simp [unpackExponent, Nat.shiftRight_eq_div_pow]

theorem toNat_unpackMantissa (b : BitVec 64) :
    (@unpackMantissa .binary64 b).toNat = b.toNat % 2 ^ 52 := by
  simp [unpackMantissa, Nat.shiftRight_eq_div_pow]

/-- There is only one undefined number. -/
theorem toBits_of_undefined (scale : x.toBits.toNat / 2 ^ 52 % 2 ^ 11 = 2047)
    (fraction : x.toBits.toNat % 2 ^ 52 ≠ 0) :
    x.toBits.toNat = 2047 * 2 ^ 52 + 2 ^ 51 := by
  have canonical : x.toBits.toBitVec = packedNaN .binary64 := by
    refine x.toModel.valid.eq_packedNaN ?_ fun none => ?_
    · apply BitVec.eq_of_toNat_eq
      rw [toNat_unpackExponent]
      exact scale
    · have zero := congrArg BitVec.toNat none
      rw [toNat_unpackMantissa] at zero
      exact fraction zero
  rw [← UInt64.toNat_toBitVec, canonical]
  decide

/-- The value of a double leads back to its bits. -/
theorem bits_binary (x : Float) : (binary x).bits = x.toBits.toNat := by
  have range : x.toBits.toNat < 2 ^ 64 := x.toBits.toNat_lt
  have sign :
      signBits (decide (twoTo 63 ≤ x.toBits.toNat)) = x.toBits.toNat / 2 ^ 63 * 2 ^ 63 := by
    rw [twoTo_eq, signBits]
    simp only [decide_eq_true_eq]
    split <;> omega
  unfold binary
  rw [twoTo_eq 52, twoTo_eq 11]
  dsimp only
  split
  · next scale =>
    split
    · rw [Binary.bits, sign]
      omega
    · next fraction => exact (toBits_of_undefined scale fraction).symm
  · split
    · rw [Binary.bits, sign, if_pos (by omega)]
      omega
    · rw [Binary.bits, sign, if_neg (by omega)]
      omega

/-- Different doubles have different values. -/
theorem binary_injective : Function.Injective binary := by
  intro x y same
  refine Float.toBits_inj.mp (UInt64.toNat_inj.mp ?_)
  rw [← bits_binary x, ← bits_binary y, same]

/-! ## Magnitudes and exponents -/

/-- The magnitude has at most 53 bits, and no fewer unless the exponent is the smallest one. -/
structure IsStandard (magnitude : Nat) (exponent : Int) : Prop where
  magnitude_lt : magnitude < 2 ^ 53
  le_exponent : -1074 ≤ exponent
  exponent_le : exponent ≤ 971
  full : 2 ^ 52 ≤ magnitude ∨ exponent = -1074

theorem isStandard_of_binary (h : binary x = .finite negative magnitude exponent) :
    IsStandard magnitude exponent := by
  unfold binary at h
  rw [twoTo_eq 52, twoTo_eq 11] at h
  dsimp only at h
  split at h
  · split at h <;> cases h
  · split at h <;> cases h <;> constructor <;> omega

/-! ## Zeros -/

theorem exists_unpack_of_zero (h : binary x = .finite negative 0 exponent) :
    ∃ sign, x.toModel.unpack = .zero sign := by
  have bits : (signBits negative : Nat) = x.toModel.toBits.toNat := by
    have same := bits_binary x
    rwa [h, Binary.bits, if_pos (by decide)] at same
  cases negative with
  | false =>
    have zero : x.toModel.toBits = 0 := UInt64.toNat_inj.mp bits.symm
    exact ⟨.positive, by rw [Float.Model.unpack, zero]; rfl⟩
  | true =>
    have zero : x.toModel.toBits = 0x8000000000000000 := UInt64.toNat_inj.mp bits.symm
    exact ⟨.negative, by rw [Float.Model.unpack, zero]; rfl⟩

theorem lt_iff_compare :
    x < y ↔ UnpackedFloat.compare x.toModel.unpack y.toModel.unpack = some .lt := by
  change decide ((UnpackedFloat.compare x.toModel.unpack y.toModel.unpack == some .lt) = true) =
    true ↔ _
  simp

theorem beq_eq_compare (x y : Float) :
    (x == y) = (UnpackedFloat.compare x.toModel.unpack y.toModel.unpack == some .eq) := rfl

/-- Zeros compare alike, whatever their signs are. -/
theorem alike_of_zero (hx : binary x = .finite negative 0 exponent)
    (hy : binary y = .finite negative' 0 exponent') : (Literal.number x).Alike (.number y) := by
  obtain ⟨sign, hsign⟩ := exists_unpack_of_zero hx
  obtain ⟨sign', hsign'⟩ := exists_unpack_of_zero hy
  have right : ∀ u,
      UnpackedFloat.compare u (.zero sign) = UnpackedFloat.compare u (.zero sign') := by
    rintro (⟨_ | _⟩ | _ | _ | ⟨⟨_ | _⟩, _, _, _⟩) <;> rfl
  have left : ∀ u,
      UnpackedFloat.compare (.zero sign) u = UnpackedFloat.compare (.zero sign') u := by
    rintro (⟨_ | _⟩ | _ | _ | ⟨⟨_ | _⟩, _, _, _⟩) <;> rfl
  intro actual
  cases actual with
  | number z =>
    simp only [Literal.compare?, compareNumbers, lt_iff_compare, beq_eq_compare, hsign, hsign',
      right, left]
  | _ => rfl

end Cohort.Decimal
