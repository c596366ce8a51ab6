/-!
# Separated texts

Texts that stand one after the other with separators between them can be told apart, if each of
them shows where it ends.

## Main results

* `Text.append_inj_of_stop` — texts without a stopping character end where one stands
* `Text.intercalate_inj` — separated texts are the same one by one
-/

namespace Cohort.Text

/-- Texts that hold no character of some kind end where one of these characters follows. -/
theorem append_inj_of_stop {stop : Char → Bool} {a b rest rest' : List Char}
    (ha : ∀ c ∈ a, stop c = false) (hb : ∀ c ∈ b, stop c = false)
    (hrest : ∀ c more, rest = c :: more → stop c = true)
    (hrest' : ∀ c more, rest' = c :: more → stop c = true)
    (h : a ++ rest = b ++ rest') : a = b ∧ rest = rest' := by
  -- Both texts are what comes before the first character that stops.
  have front : ∀ x r : List Char, (∀ c ∈ x, stop c = false) →
      (∀ c more, r = c :: more → stop c = true) →
      (x ++ r).takeWhile (fun c => !stop c) = x := by
    intro x r hx hr
    rw [List.takeWhile_append_of_pos (by simpa using hx)]
    cases r with
    | nil => simp
    | cons c more => simp [hr c more rfl]
  have same : a = b := by
    rw [← front a rest ha hrest, h, front b rest' hb hrest']
  subst same
  exact ⟨rfl, List.append_cancel_left h⟩

/-- Separated texts are the same one by one, if what follows each of them does not matter. -/
theorem intercalate_inj {P Q E : List Char → Prop} {sep : List Char} (some_sep : sep ≠ [])
    (apart : ∀ a b rest rest', P a → Q b → E rest → E rest' → a ++ rest = b ++ rest' →
      a = b ∧ rest = rest')
    (ends_nil : E []) (ends_sep : ∀ rest, E (sep ++ rest)) :
    ∀ as bs : List (List Char), as ≠ [] → bs ≠ [] → (∀ a ∈ as, P a) → (∀ b ∈ bs, Q b) →
      sep.intercalate as = sep.intercalate bs → as = bs := by
  intro as
  induction as with
  | nil => exact fun _ h => absurd rfl h
  | cons a as ih =>
    intro bs _ some_bs hP hQ h
    obtain ⟨ha, hP⟩ := List.forall_mem_cons.mp hP
    cases bs with
    | nil => exact absurd rfl some_bs
    | cons b bs =>
      obtain ⟨hb, hQ⟩ := List.forall_mem_cons.mp hQ
      cases as with
      | nil =>
        cases bs with
        | nil =>
          rw [List.intercalate_singleton, List.intercalate_singleton] at h
          rw [h]
        | cons b' bs =>
          -- One list ends where the other goes on with a separator.
          rw [List.intercalate_singleton, List.intercalate_cons_cons, List.append_assoc] at h
          have ends := (apart a b [] _ ha hb ends_nil (ends_sep _) (by simpa using h)).2
          simp [some_sep] at ends
      | cons a' as =>
        cases bs with
        | nil =>
          -- The same with the lists exchanged.
          rw [List.intercalate_singleton, List.intercalate_cons_cons, List.append_assoc] at h
          have ends := (apart a b _ [] ha hb (ends_sep _) ends_nil (by simpa using h)).2
          simp [some_sep] at ends
        | cons b' bs =>
          rw [List.intercalate_cons_cons, List.intercalate_cons_cons, List.append_assoc,
            List.append_assoc] at h
          obtain ⟨same, tails⟩ := apart a b _ _ ha hb (ends_sep _) (ends_sep _) h
          rw [same, ih (b' :: bs) (List.cons_ne_nil _ _) (List.cons_ne_nil _ _) hP hQ
            (List.append_cancel_left tails)]

end Cohort.Text
