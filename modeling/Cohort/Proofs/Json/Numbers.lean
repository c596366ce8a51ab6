import Cohort.Json.Parser
import Cohort.Json.Printer
import Cohort.Proofs.Decimal.Plain

/-!
# Numbers in JSON

A number is not marked where it ends. It is read as it stands alone if the text ends behind it or
a separator follows, which is how every number in the text of a value stands. An integer of 64
bits is read back from its text; of a double this depends on its digits.

## Main definitions

* `Json.EndsValue` — a value can end before such a text
* `Json.Fits` — the integers of 64 bits, signed or unsigned
* `Json.ReadBack` — a double is read back from its text

## Main results

* `Json.spanNumber?_append` — what follows a number does not change it
* `Json.readNumber?_int` — integers of 64 bits are read back
-/

namespace Cohort.Json

open Decimal

variable {cs after rest : List Char} {negative : Bool} {n : WrittenNumber} {j : Json} {i : Int}
  {x : Float}

/-! ## Where a value ends -/

/-- A value can end before this text: it is empty or begins with a separator. -/
def EndsValue (rest : List Char) : Prop :=
  ∀ c more, rest = c :: more → c = ',' ∨ c = ']' ∨ c = '\x7d'

theorem endsValue_nil : EndsValue [] := fun _ _ h => by cases h

theorem endsValue_cons {c : Char} (h : c = ',' ∨ c = ']' ∨ c = '\x7d') :
    EndsValue (c :: rest) := by
  rintro _ _ h'
  rw [← (List.cons.inj h').1]
  exact h

theorem EndsValue.endsDigits (ends : EndsValue rest) : EndsDigits rest := by
  intro c more h
  rcases ends c more h with rfl | rfl | rfl <;> decide

theorem EndsValue.readFraction? (ends : EndsValue rest) :
    Json.readFraction? rest = some ([], rest) := by
  cases rest with
  | nil => rfl
  | cons c more => rcases ends c more rfl with rfl | rfl | rfl <;> rfl

theorem EndsValue.readPower? (ends : EndsValue rest) :
    Json.readPower? rest = some (none, rest) := by
  cases rest with
  | nil => rfl
  | cons c more => rcases ends c more rfl with rfl | rfl | rfl <;> rfl

/-! ## The parts of a number -/

theorem readFraction?_append {fraction : List Char} (h : readFraction? cs = some (fraction, after))
    (ends : EndsValue rest) : readFraction? (cs ++ rest) = some (fraction, after ++ rest) := by
  unfold readFraction? at h
  split at h
  · next digits =>
    rw [List.cons_append, readFraction?, spanDigits_append_ends ends.endsDigits]
    dsimp only at h ⊢
    split at h
    · cases h
    · next present =>
      cases h
      rw [if_neg present]
  · next no_point =>
    cases h
    cases cs with
    | nil => exact ends.readFraction?
    | cons c more =>
      rw [List.cons_append, readFraction?]
      intro more' same
      exact no_point more (congrArg (· :: more) (List.cons.inj same).1)

theorem readPower?_append {power? : Option Int} (h : readPower? cs = some (power?, after))
    (ends : EndsValue rest) : readPower? (cs ++ rest) = some (power?, after ++ rest) := by
  cases cs with
  | nil =>
    cases h
    exact ends.readPower?
  | cons c more =>
    rw [readPower?] at h
    rw [List.cons_append, readPower?]
    split at h
    · next mark =>
      rw [if_pos mark]
      -- There is a digit behind the sign, so the sign is read without what follows the number.
      have sign : spanSign (more ++ rest) = ((spanSign more).1, (spanSign more).2 ++ rest) := by
        cases more with
        | nil => cases h
        | cons d more' =>
          unfold spanSign
          split <;> simp_all
      rw [sign]
      dsimp only at h ⊢
      rw [spanDigits_append_ends ends.endsDigits]
      dsimp only at h ⊢
      split at h
      · cases h
      · next present =>
        cases h
        rw [if_neg present]
    · next no_mark =>
      cases h
      rw [if_neg no_mark, List.cons_append]

/-! ## Numbers without a sign -/

/-- The digits before the point of a number: there are some, and a leading zero stands alone. -/
def IsWholePart (whole : List Char) : Prop :=
  (whole.isEmpty || (whole.head? == some '0' && decide (1 < whole.length))) = false

/-- Splits off a number behind its sign. -/
def spanSize? (negative : Bool) (cs : List Char) : Option (WrittenNumber × List Char) := do
  let (whole, rest) := spanDigits cs
  if whole.isEmpty || (whole.head? == some '0' && 1 < whole.length) then none
  let (fraction, rest) ← readFraction? rest
  let (power?, rest) ← readPower? rest
  return (⟨negative, whole, fraction, power?⟩, rest)

theorem spanNumber?_minus (cs : List Char) : spanNumber? ('-' :: cs) = spanSize? true cs := rfl

theorem spanNumber?_plain {c : Char} (plain : c ≠ '-') :
    spanNumber? (c :: cs) = spanSize? false (c :: cs) := by
  unfold spanNumber?
  dsimp only
  split
  · next same => exact absurd (List.cons.inj same).1 plain
  · rfl

/-- The parts of a number, one after the other. -/
theorem spanSize?_eq_some_iff : spanSize? negative cs = some (n, after) ↔
    n.negative = negative ∧ n.whole = (spanDigits cs).1 ∧ IsWholePart n.whole ∧
      ∃ tail, readFraction? (spanDigits cs).2 = some (n.fraction, tail) ∧
        readPower? tail = some (n.power?, after) := by
  obtain ⟨sign, whole, fraction, power?⟩ := n
  unfold spanSize? IsWholePart
  dsimp only
  constructor
  · intro h
    split at h
    · cases h
    · next present =>
      obtain ⟨⟨fraction', tail⟩, read_fraction, h⟩ := Option.bind_eq_some_iff.mp h
      obtain ⟨⟨power?', after'⟩, read_power, h⟩ := Option.bind_eq_some_iff.mp h
      cases h
      exact ⟨rfl, rfl, by simpa using present, tail, read_fraction, read_power⟩
  · rintro ⟨rfl, rfl, present, tail, read_fraction, read_power⟩
    rw [if_neg (by simp [present]), Option.bind_eq_bind, read_fraction]
    simp [read_power]

theorem spanSize?_append (h : spanSize? negative cs = some (n, after)) (ends : EndsValue rest) :
    spanSize? negative (cs ++ rest) = some (n, after ++ rest) := by
  obtain ⟨sign, whole, present, tail, fraction, power⟩ := spanSize?_eq_some_iff.mp h
  refine spanSize?_eq_some_iff.mpr ?_
  rw [spanDigits_append_ends ends.endsDigits]
  exact ⟨sign, whole, present, tail ++ rest, readFraction?_append fraction ends,
    readPower?_append power ends⟩

/-! ## Numbers -/

/-- What follows a number does not change it. -/
theorem spanNumber?_append (h : spanNumber? cs = some (n, after)) (ends : EndsValue rest) :
    spanNumber? (cs ++ rest) = some (n, after ++ rest) := by
  cases cs with
  | nil => cases h
  | cons c more =>
    by_cases minus : c = '-'
    · subst minus
      rw [spanNumber?_minus] at h
      rw [List.cons_append, spanNumber?_minus]
      exact spanSize?_append h ends
    · rw [spanNumber?_plain minus] at h
      rw [List.cons_append, spanNumber?_plain minus]
      exact spanSize?_append h ends

/-! ## Doubles -/

/-- The double is read back from its text. Numbers are read roughly, so this does not hold of all
doubles: `1.602176634e-19` is read as another one. -/
def ReadBack (x : Float) : Prop := readNumber? (writeJson x).toList = some (.float x, [])

instance (x : Float) : Decidable (ReadBack x) :=
  inferInstanceAs (Decidable (readNumber? (writeJson x).toList = some (.float x, [])))

/-! ## Integers -/

/-- The integer has 64 bits, with a sign or without. -/
def Fits (i : Int) : Prop := -(twoTo 63 : Int) ≤ i ∧ i < (twoTo 64 : Int)

theorem isWholePart_of_head? {whole : List Char} (some_digit : whole ≠ [])
    (first : whole.head? ≠ some '0') : IsWholePart whole := by
  simp [IsWholePart, some_digit, first]

/-- A number is not written with a zero in front. -/
theorem isWholePart_repr (n : Nat) : IsWholePart (Nat.repr n).toList := by
  by_cases zero : n = 0
  · rw [zero]
    rfl
  · obtain ⟨c, more, written, first⟩ := exists_repr_cons zero
    rw [written]
    exact isWholePart_of_head? (List.cons_ne_nil _ _) (by simpa using first)

theorem spanSize?_repr (negative : Bool) (size : Nat) (ends : EndsValue rest) :
    spanSize? negative ((Nat.repr size).toList ++ rest) =
      some (⟨negative, (Nat.repr size).toList, [], none⟩, rest) := by
  refine spanSize?_eq_some_iff.mpr ?_
  rw [spanDigits_append (allDigits_repr size) ends.endsDigits]
  exact ⟨rfl, rfl, isWholePart_repr size, rest, ends.readFraction?, ends.readPower?⟩

theorem spanNumber?_repr (size : Nat) (ends : EndsValue rest) :
    spanNumber? ((Nat.repr size).toList ++ rest) =
      some (⟨false, (Nat.repr size).toList, [], none⟩, rest) := by
  have read := spanSize?_repr false size ends
  obtain ⟨c, more, written⟩ := List.exists_cons_of_ne_nil (repr_ne_nil size)
  have plain : c ≠ '-' := by
    rintro rfl
    exact absurd (allDigits_repr size '-' (written ▸ List.mem_cons_self)) (by decide)
  rw [written] at read ⊢
  rw [List.cons_append, spanNumber?_plain plain]
  exact read

/-- An integer that fits is read as an integer. -/
theorem readNumber?_of_spanNumber? {size : Nat}
    (spanned : spanNumber? cs = some (⟨negative, (Nat.repr size).toList, [], none⟩, rest))
    (read : ofInteger? negative size = some i) : readNumber? cs = some (.int i, rest) := by
  have value : (⟨negative, (Nat.repr size).toList, [], none⟩ : WrittenNumber).value = .int i := by
    have whole : (⟨negative, (Nat.repr size).toList, [], none⟩ : WrittenNumber).integer? =
        some i := by
      rw [WrittenNumber.integer?, digitsValue_repr]
      exact read
    rw [WrittenNumber.value, whole]
  unfold readNumber?
  rw [spanned, Option.bind_eq_bind, Option.bind_some]
  dsimp only
  rw [value]
  rfl

theorem readNumber?_int (fits : Fits i) (ends : EndsValue rest) :
    readNumber? ((toString i).toList ++ rest) = some (.int i, rest) := by
  obtain ⟨low, high⟩ := fits
  rw [Int.toString_eq_repr, Int.repr_eq_if]
  split
  · next nonneg =>
    have read : ofInteger? false i.toNat = some i := by
      have small : i.toNat < twoTo 64 := by omega
      simp [ofInteger?, isUnsigned, small, nonneg]
    exact readNumber?_of_spanNumber? (spanNumber?_repr _ ends) read
  · next below =>
    have read : ofInteger? true (-i).toNat = some i := by
      have negative : ¬ ((-i).toNat = 0 ∨ twoTo 63 < (-i).toNat) := by omega
      rw [ofInteger?, if_pos rfl, if_neg negative]
      exact congrArg some (by omega)
    have minus : ("-" ++ Nat.repr (-i).toNat).toList ++ rest =
        '-' :: ((Nat.repr (-i).toNat).toList ++ rest) := by simp
    refine readNumber?_of_spanNumber? ?_ read
    rw [minus, spanNumber?_minus]
    exact spanSize?_repr true _ ends

/-! ## How a number begins -/

/-- The text begins with a digit or a minus sign. -/
def BeginsNumber (cs : List Char) : Prop :=
  ∃ c more, cs = c :: more ∧ (c.isDigit = true ∨ c = '-')

theorem beginsNumber_of_spanNumber? (h : spanNumber? cs = some (n, after)) : BeginsNumber cs := by
  cases cs with
  | nil => cases h
  | cons c more =>
    refine ⟨c, more, rfl, or_iff_not_imp_right.mpr fun plain => ?_⟩
    rw [spanNumber?_plain plain] at h
    obtain ⟨-, whole, present, -⟩ := spanSize?_eq_some_iff.mp h
    by_contra no_digit
    have none_read : (spanDigits (c :: more)).1 = [] := by simp [spanDigits, no_digit]
    rw [whole, none_read] at present
    cases present

theorem beginsNumber_of_readNumber? (h : readNumber? cs = some (j, after)) : BeginsNumber cs := by
  unfold readNumber? at h
  obtain ⟨⟨n, after'⟩, spanned, -⟩ := Option.bind_eq_some_iff.mp h
  exact beginsNumber_of_spanNumber? spanned

end Cohort.Json
