import Cohort.Text.Quoted

/-!
# Quoted SQL text

A literal is read back as the text that it was written for, if no further quote follows it. So
literals that are written alike stand for the same text, even as the beginning of a longer text.

## Main results

* `Text.readQuoted_quoteChars` — a literal is read back
* `Text.quoteChars_append_inj` — a literal determines its text and where it ends
-/

namespace Cohort.Text

/-- The characters do not go on with a quote. -/
def EndsQuote (rest : List Char) : Prop := ∀ c more, rest = c :: more → c ≠ quoteMark

variable {cs cs' rest rest' : List Char}

/-- The body of a literal is read back up to the closing quote. -/
theorem readBody_doubleQuotes (ends : EndsQuote rest) (cs : List Char) :
    readBody (doubleQuotes cs ++ quoteMark :: rest) = some (cs, rest) := by
  induction cs with
  | nil =>
    cases rest with
    | nil => simp [doubleQuotes, readBody]
    | cons d more =>
      have hd : d ≠ quoteMark := ends d more rfl
      simp [doubleQuotes, readBody, hd]
  | cons c cs ih =>
    by_cases hc : c = quoteMark
    · subst hc
      simp [doubleQuotes, readBody, ih]
    · rw [doubleQuotes, if_neg hc, List.cons_append]
      -- What follows the character is not empty, for the closing quote is there.
      cases hbody : doubleQuotes cs ++ quoteMark :: rest with
      | nil => simp at hbody
      | cons d more =>
        rw [hbody] at ih
        simp [readBody, hc, ih]

/-- A literal is read back, if no further quote follows it. -/
theorem readQuoted_quoteChars (ends : EndsQuote rest) (cs : List Char) :
    readQuoted (quoteChars cs ++ rest) = some (cs, rest) := by
  simp [quoteChars, readQuoted, readBody_doubleQuotes ends]

/-- A literal determines its text and what follows it. -/
theorem quoteChars_append_inj (ends : EndsQuote rest) (ends' : EndsQuote rest')
    (h : quoteChars cs ++ rest = quoteChars cs' ++ rest') : cs = cs' ∧ rest = rest' := by
  have read_back := congrArg readQuoted h
  rw [readQuoted_quoteChars ends, readQuoted_quoteChars ends', Option.some_inj,
    Prod.mk.injEq] at read_back
  exact read_back

end Cohort.Text
