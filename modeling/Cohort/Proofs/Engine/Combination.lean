import Mathlib.Data.List.Pairwise
import Cohort.Proofs.Engine.Datasets

/-!
# Combined datasets

Datasets are combined two at a time, and what is kept of the first ones is compared with the next
one. The result is that of a single walk over the rows: a row is taken if it is the first one of
its user and the user is in enough of the datasets. Duplicates and unknown users are like any
others in this.

## Main definitions

* `SetOperation.Takes` — the users that a combination of datasets has
* `Dataset.IsFirstRows` — rows in their order, each of them the first one of its user

## Main results

* `Dataset.foldl_firstRows` — narrowing a dataset down step by step is narrowing it down at once
* `Dataset.isFirstRows_firstRows` — the rows that are taken are the first ones of their users
* `Dataset.combine_users_and_rows` — the users and the rows of a combination
-/

namespace Cohort

/-- A combination of datasets has the user: any of them, all of them, or the first one and none of
the others. -/
def SetOperation.Takes : SetOperation → Dataset → List Dataset → Option String → Prop
  | .union, first, rest, user => ∃ d ∈ first :: rest, user ∈ d.users
  | .intersection, first, rest, user => ∀ d ∈ first :: rest, user ∈ d.users
  | .difference, first, rest, user => user ∈ first.users ∧ ∀ d ∈ rest, user ∉ d.users

namespace Dataset

variable {d d' first : Dataset} {keep keep' : Option String → Bool} {user : Option String}
  {seen seen' : List (Option String)} {row : UserRow}

/-! ## Rows that are taken -/

theorem firstRows_cons_of_pos (d : Dataset) (passes : keep row.user = true)
    (unseen : row.user ∉ seen) :
    firstRows keep seen (row :: d) = row :: firstRows keep (row.user :: seen) d := by
  rw [firstRows, if_pos]
  simp [passes, unseen]

theorem firstRows_cons_of_neg (d : Dataset) (passed_over : ¬ (keep row.user = true ∧
    row.user ∉ seen)) : firstRows keep seen (row :: d) = firstRows keep seen d := by
  rw [firstRows, if_neg]
  simpa using passed_over

/-- Whether a user was seen matters only for users that pass. -/
theorem firstRows_congr (same : ∀ user, keep user = true → (user ∈ seen ↔ user ∈ seen')) :
    firstRows keep seen d = firstRows keep seen' d := by
  induction d generalizing seen seen' with
  | nil => rfl
  | cons row rest ih =>
    by_cases taken : keep row.user = true ∧ row.user ∉ seen
    · obtain ⟨passes, unseen⟩ := taken
      have unseen' : row.user ∉ seen' := fun h => unseen ((same _ passes).mpr h)
      rw [firstRows_cons_of_pos rest passes unseen, firstRows_cons_of_pos rest passes unseen']
      congr 1
      refine ih fun user passes => ?_
      rw [List.mem_cons, List.mem_cons, same user passes]
    · have passed_over' : ¬ (keep row.user = true ∧ row.user ∉ seen') := fun ⟨passes, unseen⟩ =>
        taken ⟨passes, fun h => unseen ((same _ passes).mp h)⟩
      rw [firstRows_cons_of_neg rest taken, firstRows_cons_of_neg rest passed_over']
      exact ih same

/-- A further test on the rows that are taken is one more test on users. -/
theorem filter_firstRows (keep keep' : Option String → Bool) (seen : List (Option String))
    (d : Dataset) : (firstRows keep seen d).filter (fun row => keep' row.user) =
      firstRows (fun user => keep user && keep' user) seen d := by
  induction d generalizing seen with
  | nil => rfl
  | cons row rest ih =>
    by_cases taken : keep row.user = true ∧ row.user ∉ seen
    · obtain ⟨passes, unseen⟩ := taken
      rw [firstRows_cons_of_pos rest passes unseen]
      by_cases passes' : keep' row.user = true
      · rw [List.filter_cons, if_pos passes', ih,
          firstRows_cons_of_pos rest (by rw [passes, passes']; rfl) unseen]
      · rw [List.filter_cons, if_neg passes', ih,
          firstRows_cons_of_neg rest fun h => passes' (Bool.and_eq_true_iff.mp h.1).2]
        -- The user counts as seen on one side only, but does not pass.
        refine firstRows_congr fun user both => ?_
        have other : user ≠ row.user := by
          rintro rfl
          exact passes' (Bool.and_eq_true_iff.mp both).2
        rw [List.mem_cons, or_iff_right other]
    · rw [firstRows_cons_of_neg rest taken, ih, firstRows_cons_of_neg rest fun h =>
        taken ⟨(Bool.and_eq_true_iff.mp h.1).1, h.2⟩]

/-- Of rows of different users each is the first one. -/
theorem firstRows_of_nodup (keep : Option String → Bool) (distinct : d.users.Nodup)
    (unseen : ∀ user ∈ d.users, user ∉ seen) :
    firstRows keep seen d = d.filter fun row => keep row.user := by
  induction d generalizing seen with
  | nil => rfl
  | cons row rest ih =>
    obtain ⟨once, distinct⟩ := List.nodup_cons.mp distinct
    obtain ⟨unseen_row, unseen⟩ := List.forall_mem_cons.mp unseen
    by_cases passes : keep row.user = true
    · rw [firstRows_cons_of_pos rest passes unseen_row, List.filter_cons, if_pos passes]
      congr 1
      refine ih distinct fun user listed => ?_
      rw [List.mem_cons, not_or]
      exact ⟨fun same => once (same ▸ listed), unseen user listed⟩
    · rw [firstRows_cons_of_neg rest fun h => passes h.1, List.filter_cons,
        if_neg passes]
      exact ih distinct unseen

/-- Narrowing down twice is narrowing down by both tests at once. -/
theorem firstRows_firstRows (keep keep' : Option String → Bool) (d : Dataset) :
    firstRows keep' [] (firstRows keep [] d) =
      firstRows (fun user => keep user && keep' user) [] d := by
  rw [firstRows_of_nodup keep' (nodup_users_firstRows keep [] d) fun _ _ => List.not_mem_nil,
    filter_firstRows]

/-- Narrowing a dataset down by one dataset after the other is narrowing it down by all of them at
once. -/
theorem foldl_firstRows (test : Dataset → Option String → Bool) (first second : Dataset)
    (rest : List Dataset) :
    (second :: rest).foldl (fun d right => firstRows (test right) [] d) first =
      firstRows (fun user => (second :: rest).all fun right => test right user) [] first := by
  -- The last dataset is the last one to be compared with.
  induction rest using List.reverseRecOn with
  | nil => simp
  | append_singleton rest last ih =>
    rw [← List.cons_append, List.foldl_append, ih, List.foldl_cons, List.foldl_nil,
      firstRows_firstRows]
    simp only [List.all_append, List.all_cons, List.all_nil, Bool.and_true]

/-! ## First rows of users -/

/-- The rows stand in the dataset in this order, each of them where its user occurs for the first
time. -/
def IsFirstRows (rows d : Dataset) : Prop :=
  ∃ places : List (Fin d.length), places.Pairwise (· < ·) ∧ rows = places.map d.get ∧
    ∀ p ∈ places, ∀ q < p, (d.get q).user ≠ (d.get p).user

/-- The rows that are taken have passed, were not seen before and are the first ones of their
users. -/
theorem exists_places_firstRows (keep : Option String → Bool) (seen : List (Option String))
    (d : Dataset) : ∃ places : List (Fin d.length), places.Pairwise (· < ·) ∧
      firstRows keep seen d = places.map d.get ∧
      ∀ p ∈ places, (keep (d.get p).user = true ∧ (d.get p).user ∉ seen) ∧
        ∀ q < p, (d.get q).user ≠ (d.get p).user := by
  induction d generalizing seen with
  | nil => exact ⟨[], List.Pairwise.nil, rfl, fun p => p.elim0⟩
  | cons row rest ih =>
    by_cases taken : keep row.user = true ∧ row.user ∉ seen
    · obtain ⟨places, ascending, rows, firsts⟩ := ih (row.user :: seen)
      refine ⟨0 :: places.map Fin.succ, ?_, ?_, ?_⟩
      · refine List.pairwise_cons.mpr ⟨fun p hp => ?_, ?_⟩
        · obtain ⟨p, -, rfl⟩ := List.mem_map.mp hp
          exact Fin.succ_pos p
        · exact List.pairwise_map.mpr (ascending.imp Fin.succ_lt_succ_iff.mpr)
      · rw [firstRows_cons_of_pos rest taken.1 taken.2, rows, List.map_cons, List.map_map]
        rfl
      · refine List.forall_mem_cons.mpr ⟨⟨taken, fun q before => absurd before (Fin.not_lt_zero q)⟩,
          List.forall_mem_map.mpr fun p hp => ?_⟩
        obtain ⟨⟨passes, unseen⟩, first⟩ := firsts p hp
        rw [List.mem_cons, not_or] at unseen
        refine ⟨⟨passes, unseen.2⟩, fun q before => ?_⟩
        cases q using Fin.cases with
        | zero => exact Ne.symm unseen.1
        | succ q => exact first q (Fin.succ_lt_succ_iff.mp before)
    · obtain ⟨places, ascending, rows, firsts⟩ := ih seen
      refine ⟨places.map Fin.succ, List.pairwise_map.mpr (ascending.imp Fin.succ_lt_succ_iff.mpr),
        ?_, List.forall_mem_map.mpr fun p hp => ?_⟩
      · rw [firstRows_cons_of_neg rest taken, rows, List.map_map]
        rfl
      · obtain ⟨passes, first⟩ := firsts p hp
        refine ⟨passes, fun q before => ?_⟩
        cases q using Fin.cases with
        -- The row that was passed over belongs to another user.
        | zero => exact fun same => taken ⟨same ▸ passes.1, same ▸ passes.2⟩
        | succ q => exact first q (Fin.succ_lt_succ_iff.mp before)

theorem isFirstRows_firstRows (keep : Option String → Bool) (d : Dataset) :
    (firstRows keep [] d).IsFirstRows d := by
  obtain ⟨places, ascending, rows, firsts⟩ := exists_places_firstRows keep [] d
  exact ⟨places, ascending, rows, fun p hp => (firsts p hp).2⟩

/-- What follows a dataset does not change which rows come first in it. -/
theorem IsFirstRows.append {rows : Dataset} (h : rows.IsFirstRows d) (more : Dataset) :
    rows.IsFirstRows (d ++ more) := by
  obtain ⟨places, ascending, rfl, firsts⟩ := h
  have inside : ∀ p : Fin d.length, (p : Nat) < (d ++ more).length := fun p => by
    rw [List.length_append]
    omega
  have same : ∀ p : Fin d.length, (d ++ more).get ⟨p, inside p⟩ = d.get p := fun p =>
    List.getElem_append_left p.isLt
  refine ⟨places.map fun p : Fin d.length => ⟨p, inside p⟩, List.pairwise_map.mpr ascending, ?_,
    List.forall_mem_map.mpr fun p hp q before => ?_⟩
  · rw [List.map_map]
    exact List.map_congr_left fun p _ => (same p).symm
  · have earlier := firsts p hp ⟨q, Nat.lt_trans before p.isLt⟩ before
    rwa [← same, ← same] at earlier

/-! ## Combinations -/

theorem mem_users_flatten {ds : List Dataset} :
    user ∈ users ds.flatten ↔ ∃ d ∈ ds, user ∈ d.users := by
  simp only [users, List.mem_map, List.mem_flatten]
  constructor
  · rintro ⟨row, ⟨d, hd, hrow⟩, rfl⟩
    exact ⟨d, hd, row, hrow, rfl⟩
  · rintro ⟨d, hd, row, hrow, rfl⟩
    exact ⟨row, ⟨d, hd, hrow⟩, rfl⟩

/-- The combination of at least two datasets takes the first rows of the users that it has. -/
theorem exists_combine_eq (operation : SetOperation) (first second : Dataset)
    (rest : List Dataset) : ∃ keep d, combine operation (first :: second :: rest) =
        .ok (firstRows keep [] d) ∧
      (d = (first :: second :: rest).flatten ∨ d = first) ∧
      (operation ≠ .union → d = first) ∧
      ∀ user, user ∈ d.users ∧ keep user = true ↔
        operation.Takes first (second :: rest) user := by
  cases operation with
  | union =>
    refine ⟨_, _, rfl, .inl rfl, fun h => absurd rfl h, fun user => ?_⟩
    rw [and_iff_left rfl, mem_users_flatten]
    rfl
  | intersection =>
    refine ⟨_, first, congrArg Except.ok (foldl_firstRows (fun right => right.users.contains)
      first second rest), .inr rfl, fun _ => rfl, fun user => ?_⟩
    rw [List.all_eq_true, SetOperation.Takes, List.forall_mem_cons (a := first)]
    simp only [List.contains_iff_mem]
  | difference =>
    refine ⟨_, first, congrArg Except.ok (foldl_firstRows
      (fun right user => !right.users.contains user) first second rest), .inr rfl, fun _ => rfl,
      fun user => ?_⟩
    rw [List.all_eq_true, SetOperation.Takes]
    simp only [Bool.not_eq_true', List.contains_eq_mem, decide_eq_false_iff_not]

/-- There is no combination of no datasets, and a single one stays as it is. A combination has the
users that the operation takes. Of at least two datasets it has each user once, with the row that is
the first one of the user in all of them together, in this order; and an intersection or a difference
has the first rows of the first dataset. -/
theorem combine_users_and_rows (operation : SetOperation) :
    combine operation [] = .error .nothingToCombine ∧
    (∀ only, combine operation [only] = .ok only) ∧
    (∀ first rest, ∃ combined, combine operation (first :: rest) = .ok combined ∧
      ∀ user, user ∈ combined.users ↔ operation.Takes first rest user) ∧
    ∀ first second rest, ∃ combined,
      combine operation (first :: second :: rest) = .ok combined ∧
      combined.users.Nodup ∧ combined.IsFirstRows (first :: second :: rest).flatten ∧
      (operation ≠ .union → combined.IsFirstRows first) := by
  refine ⟨rfl, fun only => rfl, fun first rest => ?_, fun first second rest => ?_⟩
  · cases rest with
    | nil =>
      refine ⟨first, rfl, fun user => ?_⟩
      cases operation <;> simp [SetOperation.Takes]
    | cons second rest =>
      obtain ⟨keep, d, result, -, -, takes⟩ := exists_combine_eq operation first second rest
      refine ⟨_, result, fun user => ?_⟩
      rw [mem_users_firstRows, ← takes]
      simp
  · obtain ⟨keep, d, result, from_operands, from_first, -⟩ :=
      exists_combine_eq operation first second rest
    have rows := isFirstRows_firstRows keep d
    refine ⟨_, result, nodup_users_firstRows keep [] d, ?_, fun narrows => from_first narrows ▸ rows⟩
    rcases from_operands with rfl | rfl
    · exact rows
    · exact rows.append _

/-- Rows with the numbers of transactions of their users. -/
private def counted (users : List (String × Nat)) : Dataset :=
  users.map fun (user, count) => { user := some user, count, spent := 0, kinds := "" }

/-- Of two rows of a user the first one is kept, within a dataset and among several. -/
example :
    combine .union [counted [("ann", 1), ("ann", 2)], counted [("bob", 3), ("ann", 4)]] =
      .ok (counted [("ann", 1), ("bob", 3)]) ∧
    combine .intersection [counted [("bob", 1), ("ann", 2), ("ann", 3)], counted [("ann", 4)]] =
      .ok (counted [("ann", 2)]) :=
  ⟨rfl, rfl⟩

end Dataset

end Cohort
