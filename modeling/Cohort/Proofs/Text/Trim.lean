import Cohort.Text.Blank

/-!
# Trimming

A trimmed text begins and ends with something other than a blank, so that trimming it once
more changes nothing.

## Main results

* `Text.trim_trim` — a trimmed text is trimmed already
-/

namespace Cohort.Text

variable {cs : List Char}

/-- The characters do not begin with a blank. -/
def BeginsInk (cs : List Char) : Prop := ∀ c rest, cs = c :: rest → isBlank c = false

theorem trimStartChars_of_beginsInk (h : BeginsInk cs) : trimStartChars cs = cs := by
  cases cs with
  | nil => rfl
  | cons c rest => rw [trimStartChars, List.dropWhile_cons_of_neg (by simp [h c rest rfl])]

theorem beginsInk_trimStartChars (cs : List Char) : BeginsInk (trimStartChars cs) := by
  intro c rest h
  have head := List.head?_dropWhile_not isBlank cs
  unfold trimStartChars at h
  rw [h] at head
  simpa using head

/-- What is left of a text without trailing blanks begins as the text does. -/
theorem beginsInk_of_append {rest : List Char} (h : BeginsInk (cs ++ rest)) : BeginsInk cs := by
  rintro c more rfl
  exact h c (more ++ rest) rfl

/-- Behind a trimmed text there are only blanks. -/
theorem trimStartChars_eq_append (cs : List Char) : ∃ blanks,
    trimStartChars cs = trimChars cs ++ blanks ∧ ∀ c ∈ blanks, isBlank c = true := by
  refine ⟨((trimStartChars cs).reverse.takeWhile isBlank).reverse, ?_, fun c hc => ?_⟩
  · rw [trimChars, ← List.reverse_append]
    unfold trimStartChars
    rw [List.takeWhile_append_dropWhile, List.reverse_reverse]
  · exact List.all_eq_true.mp List.all_takeWhile c (List.mem_reverse.mp hc)

theorem trimChars_trimChars (cs : List Char) : trimChars (trimChars cs) = trimChars cs := by
  obtain ⟨blanks, split, -⟩ := trimStartChars_eq_append cs
  have start : trimStartChars (trimChars cs) = trimChars cs := by
    have begins := beginsInk_trimStartChars cs
    rw [split] at begins
    exact trimStartChars_of_beginsInk (beginsInk_of_append begins)
  have stop : trimStartChars (trimChars cs).reverse = (trimChars cs).reverse := by
    rw [trimChars, List.reverse_reverse]
    exact trimStartChars_of_beginsInk (beginsInk_trimStartChars _)
  rw [trimChars, start, stop, List.reverse_reverse]

/-- A trimmed text is trimmed already. -/
theorem trim_trim (s : String) : trim (trim s) = trim s := by
  unfold trim
  rw [String.toList_ofList, trimChars_trimChars]

end Cohort.Text
