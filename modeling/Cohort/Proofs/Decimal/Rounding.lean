import Cohort.Proofs.Decimal.Bits
import Cohort.Proofs.Decimal.Value

/-!
# Rounding intervals

The numbers that round to one double form an interval, and no number rounds to two doubles. The
shortest digits of a double are in its interval, because some grid that is tried is so fine that
a neighbour of the double on it is. So the shortest digits tell the double.

## Main definitions

* `Decimal.Interval.Holds` — a number is in an interval

## Main results

* `Decimal.shortest_holds` — the shortest digits are in the interval of the double
* `Decimal.eq_of_holds` — no number is in the intervals of two doubles
-/

namespace Cohort.Decimal

variable {i : Interval} {tie : Tie} {exponent exponent' place : Int} {c magnitude magnitude' : Nat}
  {v : ℚ}

/-- A number is in an interval, which is given in quarters of `2 ^ exponent`. -/
structure Interval.Holds (i : Interval) (exponent : Int) (v : ℚ) : Prop where
  low_le : i.low * 2 ^ (exponent - 2) ≤ v
  le_high : v ≤ i.high * 2 ^ (exponent - 2)
  low_lt : i.closed = false → i.low * 2 ^ (exponent - 2) < v
  lt_high : i.closed = false → v < i.high * 2 ^ (exponent - 2)

/-! ## Neighbours on a grid -/

/-- The multiple of `10 ^ place` is in the interval, tested without fractions. -/
def Interval.meets (i : Interval) (exponent place : Int) (d : Nat) : Bool :=
  let quarter := exponent - 2
  let numberUp := twoTo quarter.toNat * tenTo (-place).toNat
  let here := d * (tenTo place.toNat * twoTo (-quarter).toNat)
  if i.closed then i.low * numberUp ≤ here && here ≤ i.high * numberUp
  else i.low * numberUp < here && here < i.high * numberUp

/-- A power without its denominator. -/
theorem zpow_mul_denominator {b : ℚ} (hb : b ≠ 0) (n : Int) :
    b ^ n * b ^ (-n).toNat = b ^ n.toNat := by
  rw [← zpow_natCast, ← zpow_natCast, ← zpow_add₀ hb]
  congr 1
  omega

section Scaled

variable (exponent place)

/-- The common denominator of `2 ^ (exponent - 2)` and `10 ^ place`. -/
def denominator : ℚ := 10 ^ (-place).toNat * 2 ^ (-(exponent - 2)).toNat

theorem denominator_pos : 0 < denominator exponent place := by
  unfold denominator
  positivity

theorem cast_twoTo (n : Nat) : (twoTo n : ℚ) = 2 ^ n := Nat.cast_pow 2 n

theorem cast_tenTo (n : Nat) : (tenTo n : ℚ) = 10 ^ n := Nat.cast_pow 10 n

theorem numberUp_eq :
    ((twoTo (exponent - 2).toNat * tenTo (-place).toNat : Nat) : ℚ) =
      2 ^ (exponent - 2) * denominator exponent place := by
  have two := zpow_mul_denominator (b := 2) (by norm_num) (exponent - 2)
  rw [denominator, mul_left_comm, two, Nat.cast_mul, cast_twoTo, cast_tenTo, mul_comm]

theorem gridUnit_eq :
    ((tenTo place.toNat * twoTo (-(exponent - 2)).toNat : Nat) : ℚ) =
      10 ^ place * denominator exponent place := by
  have ten := zpow_mul_denominator (b := 10) (by norm_num) place
  rw [denominator, ← mul_assoc, ten, Nat.cast_mul, cast_twoTo, cast_tenTo]

/-- Comparing without fractions is comparing. -/
theorem numberUp_le (n d : Nat) :
    n * (twoTo (exponent - 2).toNat * tenTo (-place).toNat) ≤
        d * (tenTo place.toNat * twoTo (-(exponent - 2)).toNat) ↔
      (n : ℚ) * 2 ^ (exponent - 2) ≤ d * 10 ^ place := by
  rw [← Nat.cast_le (α := ℚ), Nat.cast_mul, Nat.cast_mul d, numberUp_eq, gridUnit_eq, ← mul_assoc,
    ← mul_assoc]
  exact mul_le_mul_iff_left₀ (denominator_pos exponent place)

theorem le_numberUp (n d : Nat) :
    d * (tenTo place.toNat * twoTo (-(exponent - 2)).toNat) ≤
        n * (twoTo (exponent - 2).toNat * tenTo (-place).toNat) ↔
      (d : ℚ) * 10 ^ place ≤ n * 2 ^ (exponent - 2) := by
  rw [← Nat.cast_le (α := ℚ), Nat.cast_mul, Nat.cast_mul n, numberUp_eq, gridUnit_eq, ← mul_assoc,
    ← mul_assoc]
  exact mul_le_mul_iff_left₀ (denominator_pos exponent place)

theorem numberUp_lt (n d : Nat) :
    n * (twoTo (exponent - 2).toNat * tenTo (-place).toNat) <
        d * (tenTo place.toNat * twoTo (-(exponent - 2)).toNat) ↔
      (n : ℚ) * 2 ^ (exponent - 2) < d * 10 ^ place := by
  rw [← not_le, le_numberUp, not_le]

theorem lt_numberUp (n d : Nat) :
    d * (tenTo place.toNat * twoTo (-(exponent - 2)).toNat) <
        n * (twoTo (exponent - 2).toNat * tenTo (-place).toNat) ↔
      (d : ℚ) * 10 ^ place < n * 2 ^ (exponent - 2) := by
  rw [← not_le, numberUp_le, not_le]

end Scaled

theorem meets_iff {d : Nat} :
    i.meets exponent place d = true ↔ i.Holds exponent (d * 10 ^ place) := by
  unfold Interval.meets
  dsimp only
  split
  · next closed =>
    rw [Bool.and_eq_true, decide_eq_true_eq, decide_eq_true_eq, numberUp_le, le_numberUp]
    constructor
    · rintro ⟨low, high⟩
      exact ⟨low, high, by simp [closed], by simp [closed]⟩
    · exact fun h => ⟨h.low_le, h.le_high⟩
  · next opened =>
    rw [Bool.not_eq_true] at opened
    rw [Bool.and_eq_true, decide_eq_true_eq, decide_eq_true_eq, numberUp_lt, lt_numberUp]
    constructor
    · rintro ⟨low, high⟩
      exact ⟨low.le, high.le, fun _ => low, fun _ => high⟩
    · exact fun h => ⟨h.low_lt opened, h.lt_high opened⟩

/-- What is found on a grid is in the interval. -/
theorem holds_of_onGrid (h : onGrid tie i exponent place = some c) :
    i.Holds exponent (c * 10 ^ place) := by
  rw [← meets_iff]
  unfold onGrid at h
  dsimp only at h
  -- Only neighbours that were tested are taken.
  split at h
  · next below above =>
    split at h
    · exact Option.some.inj h ▸ below
    · exact Option.some.inj h ▸ above
  · next below _ => exact Option.some.inj h ▸ below
  · next _ above => exact Option.some.inj h ▸ above
  · cases h

/-- On a grid that is finer than a quarter the upper neighbour is in the interval. -/
theorem onGrid_isSome (fine : (10 : ℚ) ^ place ≤ 2 ^ (exponent - 2)) (low : i.low ≤ i.middle)
    (high : i.middle + 1 < i.high) : (onGrid tie i exponent place).isSome = true := by
  have fine_grid := (le_numberUp exponent place 1 1).mpr (by simpa using fine)
  have positive : 0 < tenTo place.toNat * twoTo (-(exponent - 2)).toNat :=
    Nat.mul_pos (Nat.pow_pos (by decide)) (Nat.pow_pos (by decide))
  have above : i.meets exponent place (i.middle *
      (twoTo (exponent - 2).toNat * tenTo (-place).toNat) /
        (tenTo place.toNat * twoTo (-(exponent - 2)).toNat) + 1) = true := by
    unfold Interval.meets
    dsimp only
    generalize twoTo (exponent - 2).toNat * tenTo (-place).toNat = number at fine_grid ⊢
    generalize tenTo place.toNat * twoTo (-(exponent - 2)).toNat = unit at fine_grid positive ⊢
    rw [Nat.one_mul, Nat.one_mul] at fine_grid
    have reached : i.middle * number < (i.middle * number / unit + 1) * unit :=
      Nat.lt_mul_of_div_lt (Nat.lt_succ_self _) positive
    have not_far : (i.middle * number / unit + 1) * unit ≤ i.middle * number + number := by
      rw [Nat.succ_mul]
      exact Nat.add_le_add (Nat.div_mul_le_self _ _) fine_grid
    have low_le : i.low * number ≤ i.middle * number := Nat.mul_le_mul_right _ low
    have lt_high : i.middle * number + number < i.high * number := by
      rw [← Nat.succ_mul]
      exact Nat.mul_lt_mul_of_pos_right high (positive.trans_le fine_grid)
    split <;> simp only [Bool.and_eq_true, decide_eq_true_eq] <;> omega
  unfold onGrid
  dsimp only
  split
  · split <;> rfl
  · rfl
  · rfl
  · next not_above => cases above.symm.trans not_above

/-! ## The search -/

/-- If one of the grids that are tried is fine enough, the digits are in the interval. -/
theorem shortestFrom_holds (low : i.low ≤ i.middle) (high : i.middle + 1 < i.high) {tries : Nat}
    (fine : ∃ k < tries, (10 : ℚ) ^ (place - k) ≤ 2 ^ (exponent - 2)) :
    i.Holds exponent (shortestFrom tie i exponent tries place).value := by
  induction tries generalizing place with
  | zero =>
    obtain ⟨k, hk, -⟩ := fine
    exact absurd hk (Nat.not_lt_zero k)
  | succ tries ih =>
    rw [shortestFrom]
    split
    · next found => exact holds_of_onGrid found
    · next missed =>
      obtain ⟨k, hk, fine⟩ := fine
      cases k with
      | zero =>
        have found : (onGrid tie i exponent place).isSome = true :=
          onGrid_isSome (by simpa using fine) low high
        rw [missed] at found
        cases found
      | succ k =>
        refine ih ⟨k, Nat.lt_of_succ_lt_succ hk, ?_⟩
        rwa [sub_sub, add_comm (1 : Int), ← Nat.cast_succ]

/-- A power of ten is below a power of two if it is by a margin. -/
theorem tenTo_le_twoTo {t s : Int} (up : 10 * t ≤ 3 * s) (down : 33 * t ≤ 10 * s) :
    (10 : ℚ) ^ t ≤ 2 ^ s := by
  rcases le_total 0 t with nonneg | nonpos
  -- A thousand is less than `2 ^ 10`.
  · refine le_of_pow_le_pow_left₀ (n := 3) (by decide) (by positivity) ?_
    calc ((10 : ℚ) ^ t) ^ 3 = (1000 : ℚ) ^ t := by
          rw [← zpow_natCast, zpow_comm, zpow_natCast]
          norm_num
      _ ≤ (1024 : ℚ) ^ t := zpow_le_zpow_left₀ nonneg (by norm_num) (by norm_num)
      _ = (2 : ℚ) ^ (10 * t) := by rw [zpow_mul]; norm_num
      _ ≤ (2 : ℚ) ^ (3 * s) := zpow_le_zpow_right₀ (by norm_num) up
      _ = ((2 : ℚ) ^ s) ^ 3 := by rw [← zpow_natCast, ← zpow_mul, mul_comm]; rfl
  -- And `10 ^ 10` is more than `2 ^ 33`.
  · refine le_of_pow_le_pow_left₀ (n := 10) (by decide) (by positivity) ?_
    have large : (2 ^ 33 : ℚ) ^ (-t) ≤ (10 ^ 10 : ℚ) ^ (-t) :=
      zpow_le_zpow_left₀ (by omega) (by norm_num) (by norm_num)
    calc ((10 : ℚ) ^ t) ^ 10 = ((10 ^ 10 : ℚ) ^ (-t))⁻¹ := by
          rw [zpow_neg, inv_inv, ← zpow_natCast, zpow_comm]
          norm_num
      _ ≤ ((2 ^ 33 : ℚ) ^ (-t))⁻¹ := inv_anti₀ (by positivity) large
      _ = (2 : ℚ) ^ (33 * t) := by
          rw [zpow_neg, inv_inv, zpow_mul]
          norm_num
      _ ≤ (2 : ℚ) ^ (10 * s) := zpow_le_zpow_right₀ (by norm_num) down
      _ = ((2 : ℚ) ^ s) ^ 10 := by rw [← zpow_natCast, ← zpow_mul, mul_comm]; rfl

/-- The shortest digits of a double are in its interval. -/
theorem shortest_holds (standard : IsStandard magnitude exponent) (positive : magnitude ≠ 0) :
    (Interval.around magnitude exponent).Holds exponent
      (shortest tie magnitude exponent).value := by
  have bits : Nat.log2 magnitude < 53 := (Nat.log2_lt positive).mpr standard.magnitude_lt
  obtain ⟨-, smallest, largest, -⟩ := standard
  refine shortestFrom_holds ?_ ?_ ⟨23, by decide, tenTo_le_twoTo ?_ ?_⟩
  · simp [Interval.around]
  · simp [Interval.around]
  · rw [Int.fdiv_eq_ediv_of_nonneg _ (by decide)]
    push_cast
    omega
  · rw [Int.fdiv_eq_ediv_of_nonneg _ (by decide)]
    push_cast
    omega

/-! ## Separate intervals -/

private theorem quarters (exponent : Int) : (2 : ℚ) ^ exponent = 4 * 2 ^ (exponent - 2) := by
  rw [zpow_sub₀ (by norm_num)]
  norm_num
  ring

/-- A double is in its own interval. -/
theorem around_holds (exponent : Int) (positive : magnitude ≠ 0) :
    (Interval.around magnitude exponent).Holds exponent (magnitude * 2 ^ exponent) := by
  have unit : (0 : ℚ) < 2 ^ (exponent - 2) := by positivity
  have middle : (magnitude : ℚ) * 2 ^ exponent =
      (4 * magnitude : Nat) * 2 ^ (exponent - 2) := by
    rw [quarters exponent]
    push_cast
    ring
  have low : (Interval.around magnitude exponent).low < 4 * magnitude := by
    simp only [Interval.around]
    split <;> omega
  have high : 4 * magnitude < (Interval.around magnitude exponent).high := by
    simp [Interval.around]
  have low_lt := mul_lt_mul_of_pos_right (Nat.cast_lt (α := ℚ).mpr low) unit
  have lt_high := mul_lt_mul_of_pos_right (Nat.cast_lt (α := ℚ).mpr high) unit
  rw [middle]
  exact ⟨low_lt.le, lt_high.le, fun _ => low_lt, fun _ => lt_high⟩

/-- What is in an interval is positive. -/
theorem Interval.Holds.pos (positive : magnitude ≠ 0)
    (h : (Interval.around magnitude exponent).Holds exponent v) : 0 < v := by
  have unit : (0 : ℚ) < 2 ^ (exponent - 2) := by positivity
  have low : 0 < (Interval.around magnitude exponent).low := by
    simp only [Interval.around]
    split <;> omega
  exact (mul_pos (Nat.cast_pos.mpr low) unit).trans_le h.low_le

/-- Intervals with a common number overlap, by more than an end if the ends of one are open. -/
theorem Interval.Holds.overlap {j : Interval} {k : Nat} (h : i.Holds exponent v)
    (h' : j.Holds (exponent + k) v) :
    (j.low * 2 ^ k ≤ i.high ∧ i.low ≤ j.high * 2 ^ k) ∧
      (i.closed = false ∨ j.closed = false →
        j.low * 2 ^ k < i.high ∧ i.low < j.high * 2 ^ k) := by
  have unit : (0 : ℚ) < 2 ^ (exponent - 2) := by positivity
  have scale : (2 : ℚ) ^ (exponent + k - 2) = 2 ^ k * 2 ^ (exponent - 2) := by
    rw [add_sub_right_comm, zpow_add₀ (by norm_num), zpow_natCast, mul_comm]
  have le_iff : ∀ m n : Nat, (m : ℚ) * 2 ^ (exponent - 2) ≤ n * 2 ^ (exponent - 2) ↔ m ≤ n :=
    fun m n => (mul_le_mul_iff_left₀ unit).trans Nat.cast_le
  have lt_iff : ∀ m n : Nat, (m : ℚ) * 2 ^ (exponent - 2) < n * 2 ^ (exponent - 2) ↔ m < n :=
    fun m n => (mul_lt_mul_iff_left₀ unit).trans Nat.cast_lt
  have scaled : ∀ n : Nat, (n : ℚ) * 2 ^ (exponent + k - 2) =
      (n * 2 ^ k : Nat) * 2 ^ (exponent - 2) := by
    intro n
    rw [scale]
    push_cast
    ring
  obtain ⟨low, high, low_lt, lt_high⟩ := h
  obtain ⟨low', high', low_lt', lt_high'⟩ := h'
  rw [scaled] at low' high' low_lt' lt_high'
  refine ⟨⟨(le_iff _ _).mp (low'.trans high), (le_iff _ _).mp (low.trans high')⟩, ?_⟩
  rintro (opened | opened)
  · exact ⟨(lt_iff _ _).mp (low'.trans_lt (lt_high opened)),
      (lt_iff _ _).mp ((low_lt opened).trans_le high')⟩
  · exact ⟨(lt_iff _ _).mp ((low_lt' opened).trans_le high),
      (lt_iff _ _).mp (low.trans_lt (lt_high' opened))⟩

theorem le_low_around (magnitude : Nat) (exponent : Int) :
    4 * magnitude - 2 ≤ (Interval.around magnitude exponent).low := by
  simp only [Interval.around]
  split <;> omega

/-- Below a power of two the interval is shorter, so that it begins later. -/
theorem le_low_around_of_full (full : 2 ^ 52 ≤ magnitude) (normal : -1074 < exponent) :
    2 ^ 54 - 1 ≤ (Interval.around magnitude exponent).low := by
  have power : twoTo 52 = 2 ^ 52 := rfl
  simp only [Interval.around]
  split <;> omega

/-- The interval of a double has no number in common with that of another one with the same or a
larger exponent. -/
theorem eq_of_holds_of_le {k : Nat} (standard : IsStandard magnitude exponent)
    (standard' : IsStandard magnitude' (exponent + k))
    (h : (Interval.around magnitude exponent).Holds exponent v)
    (h' : (Interval.around magnitude' (exponent + k)).Holds (exponent + k) v) :
    magnitude = magnitude' ∧ k = 0 := by
  obtain ⟨reached, overlap⟩ := h.overlap h'
  have low := le_low_around magnitude exponent
  have low' := le_low_around magnitude' (exponent + k)
  have high : (Interval.around magnitude exponent).high = 4 * magnitude + 2 := rfl
  have high' : (Interval.around magnitude' (exponent + k)).high = 4 * magnitude' + 2 := rfl
  have odd : (Interval.around magnitude exponent).closed = false ↔ magnitude % 2 ≠ 0 :=
    beq_eq_false_iff_ne
  have odd' : (Interval.around magnitude' (exponent + k)).closed = false ↔ magnitude' % 2 ≠ 0 :=
    beq_eq_false_iff_ne
  rw [odd, odd'] at overlap
  rw [high, high'] at reached overlap
  cases k with
  -- With one unit, only the intervals of neighbours meet, and the end belongs to the even one.
  | zero =>
    rw [pow_zero, Nat.mul_one, Nat.mul_one] at reached overlap
    exact ⟨by omega, rfl⟩
  -- With a larger unit, only the last magnitude is near enough, and it is odd.
  | succ k =>
    exfalso
    obtain ⟨bounded, smallest, -, -⟩ := standard
    have full := standard'.full.resolve_right (by omega)
    have begins : 2 ^ 54 - 1 ≤ (Interval.around magnitude' (exponent + (k + 1 : Nat))).low :=
      le_low_around_of_full full (by omega)
    have twice : (Interval.around magnitude' (exponent + (k + 1 : Nat))).low * 2 ≤
        (Interval.around magnitude' (exponent + (k + 1 : Nat))).low * 2 ^ (k + 1) :=
      Nat.mul_le_mul_left _ (Nat.le_self_pow (Nat.succ_ne_zero k) 2)
    omega

/-- No number is in the intervals of two doubles. -/
theorem eq_of_holds (standard : IsStandard magnitude exponent)
    (standard' : IsStandard magnitude' exponent')
    (h : (Interval.around magnitude exponent).Holds exponent v)
    (h' : (Interval.around magnitude' exponent').Holds exponent' v) :
    magnitude = magnitude' ∧ exponent = exponent' := by
  rcases le_total exponent exponent' with le | le
  · obtain ⟨k, rfl⟩ := Int.le.dest le
    obtain ⟨same, rfl⟩ := eq_of_holds_of_le standard standard' h h'
    exact ⟨same, by simp⟩
  · obtain ⟨k, rfl⟩ := Int.le.dest le
    obtain ⟨same, rfl⟩ := eq_of_holds_of_le standard' standard h' h
    exact ⟨same.symm, by simp⟩

end Cohort.Decimal
