import Cohort.Json.Parser
import Cohort.Json.Printer

/-!
# Texts in JSON

A text that is written between quotes is read back as it was, whatever follows the closing
quote. So texts that are written alike are the same, even as the beginning of a longer text.

## Main results

* `Json.readText?_escape` — a character is read back from its escaped form
* `Json.readText?_body` — a text is read back
* `Json.renderText_append_inj` — a text in quotes determines where it ends
-/

namespace Cohort.Json

variable {rest : List Char}

theorem hexValue?_hexDigit : ∀ n < 16, hexValue? (hexDigit n) = some n := by decide

/-- The code of a control character is read back. -/
theorem hexCode?_control {n : Nat} (h : n < 32) :
    hexCode? '0' '0' (hexDigit (n / 16)) (hexDigit (n % 16)) = some n := by
  have high := hexValue?_hexDigit (n / 16) (by omega)
  have low := hexValue?_hexDigit (n % 16) (by omega)
  have zero : hexValue? '0' = some 0 := by decide
  simp only [hexCode?, zero, high, low, Option.bind_eq_bind, Option.bind_some, Option.pure_def,
    Option.some_inj]
  omega

/-- A character with a letter of its own is read back from its escape. -/
theorem readText?_named {c e : Char} (h : escaped? e = some c) :
    readText? ('\\' :: e :: rest) = (readText? rest).map fun (s, r) => (c :: s, r) := by
  rw [readText?]
  · rw [h]
  · -- The letter `u` begins the code of a character.
    rintro _ _ _ _ _ rfl
    cases h

/-- A character is read back from its escaped form. -/
theorem readText?_escape (c : Char) :
    readText? (escape c ++ rest) = (readText? rest).map fun (s, r) => (c :: s, r) := by
  unfold escape
  split
  · next h =>
    subst h
    exact readText?_named rfl
  split
  · next h =>
    subst h
    exact readText?_named rfl
  split
  · next h =>
    subst h
    exact readText?_named rfl
  split
  · next h =>
    subst h
    exact readText?_named rfl
  split
  · next h =>
    subst h
    exact readText?_named rfl
  split
  · next h =>
    obtain rfl : Char.ofNat 8 = c := by rw [← h, Char.ofNat_toNat]
    exact readText?_named rfl
  split
  · next h =>
    obtain rfl : Char.ofNat 12 = c := by rw [← h, Char.ofNat_toNat]
    exact readText?_named rfl
  split
  · next h =>
    -- The code of a control character is no half of a pair.
    have code := hexCode?_control h
    have no_pair : ¬ (0xD800 ≤ c.toNat ∧ c.toNat < 0xDC00) := by omega
    have no_low : ¬ (0xDC00 ≤ c.toNat ∧ c.toNat < 0xE000) := by omega
    simp [readText?, code, no_pair, no_low, Char.ofNat_toNat]
  · next quote backslash _ _ _ _ _ printed =>
    -- Any other character stands for itself.
    rw [List.singleton_append, readText?]
    · simp [backslash, printed]
    all_goals simp_all

/-- A text is read back. -/
theorem readText?_body (cs : List Char) :
    readText? (cs.flatMap escape ++ '"' :: rest) = some (cs, rest) := by
  induction cs with
  | nil => simp [readText?]
  | cons c cs ih =>
    rw [List.flatMap_cons, List.append_assoc, readText?_escape, ih]
    rfl

/-- A text in quotes determines itself and what follows it. -/
theorem renderText_append_inj {s s' : String} {rest' : List Char}
    (h : renderText s ++ rest = renderText s' ++ rest') : s = s' ∧ rest = rest' := by
  have bodies : s.toList.flatMap escape ++ '"' :: rest =
      s'.toList.flatMap escape ++ '"' :: rest' := by
    simpa [renderText] using h
  have read_back := congrArg readText? bodies
  rw [readText?_body, readText?_body, Option.some_inj, Prod.mk.injEq] at read_back
  exact ⟨String.toList_inj.mp read_back.1, read_back.2⟩

end Cohort.Json
