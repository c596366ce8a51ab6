import Cohort.Schedule

/-!
# The order of instants

Instants are ordered by their seconds, and then by the parts of a second. Of two instants one is not
later than the other, so that some instants have an earliest.

## Main results

* `Instant.le_refl`, `Instant.le_trans` — the order
* `Instant.le_foldl_earliest_iff`, `Instant.foldl_earliest_mem` — the earliest of some instants
* `Schedule.le_nextRun` — the next run is not before now
-/

namespace Cohort

namespace Instant

variable {a b : Instant}

theorem le_refl (a : Instant) : a ≤ a := by
  change le a a = true
  simp [le]

theorem le_iff : a ≤ b ↔ a.seconds < b.seconds ∨ a.seconds = b.seconds ∧ a.nanos ≤ b.nanos := by
  change le a b = true ↔ _
  simp [le]

theorem le_trans {c : Instant} (h : a ≤ b) (h' : b ≤ c) : a ≤ c := by
  rw [le_iff] at *
  omega

theorem le_of_not_le (h : ¬ a ≤ b) : b ≤ a := by
  rw [le_iff] at *
  omega

/-- The later of two instants is not before the first one. -/
theorem le_latest (a b : Instant) : a ≤ latest a b := by
  unfold latest
  split
  · next before => exact before
  · exact le_refl a

/-- What is not later than the earlier of two instants is not later than either. -/
theorem le_earliest_iff {c : Instant} : c ≤ earliest a b ↔ c ≤ a ∧ c ≤ b := by
  unfold earliest
  split
  · next before => exact ⟨fun h => ⟨h, le_trans h before⟩, fun h => h.1⟩
  · next after => exact ⟨fun h => ⟨le_trans h (le_of_not_le after), h⟩, fun h => h.2⟩

theorem le_foldl_earliest_iff (c t : Instant) (rest : List Instant) :
    c ≤ rest.foldl earliest t ↔ ∀ u ∈ t :: rest, c ≤ u := by
  induction rest generalizing t with
  | nil => simp
  | cons v rest ih =>
    rw [List.foldl_cons, ih]
    simp only [List.forall_mem_cons, le_earliest_iff, and_assoc]

/-- The earliest of some instants is one of them. -/
theorem foldl_earliest_mem (t : Instant) (rest : List Instant) :
    rest.foldl earliest t ∈ t :: rest := by
  induction rest generalizing t with
  | nil => exact List.mem_cons_self
  | cons v rest ih =>
    have earlier : earliest t v = t ∨ earliest t v = v := by
      unfold earliest
      split <;> simp
    have member := ih (earliest t v)
    rw [List.foldl_cons]
    rcases earlier with same | same
    all_goals
      rw [same] at member ⊢
      rw [List.mem_cons] at member
      simp only [List.mem_cons]
    · exact member.imp_right .inr
    · exact .inr member

/-- Also from inside a leap second, time goes on. -/
theorem le_after {n : Int} (later : 0 < n) (t : Instant) : t ≤ t.after n := by
  rw [le_iff]
  by_cases leap : 1000000000 ≤ t.nanos
  · rw [after, if_pos leap, if_pos later]
    dsimp only
    omega
  · rw [after, if_neg leap]
    dsimp only
    omega

end Instant

theorem Schedule.le_nextRun (schedule : Schedule) (now : Instant) : now ≤ schedule.nextRun now :=
  Instant.le_after (by cases schedule <;> decide) now

end Cohort
