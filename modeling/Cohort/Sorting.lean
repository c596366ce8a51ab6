/-!
# Sorting

A list is sorted by putting its elements, the last one first, each at its place in
what is sorted already. Elements that the order does not tell apart keep their places.

## Main definitions

* `insertBy` — puts an element into a sorted list
* `sortBy` — the elements of a list in order
-/

namespace Cohort

variable {α : Type}

/-- Puts an element into a sorted list, before the first one that it may precede. -/
def insertBy (le : α → α → Bool) (a : α) : List α → List α
  | [] => [a]
  | b :: rest => if le a b then a :: b :: rest else b :: insertBy le a rest

/-- The elements of a list in order. -/
def sortBy (le : α → α → Bool) : List α → List α
  | [] => []
  | a :: rest => insertBy le a (sortBy le rest)

theorem insertBy_perm (le : α → α → Bool) (a : α) (l : List α) :
    (insertBy le a l).Perm (a :: l) := by
  induction l with
  | nil => exact .refl _
  | cons b rest ih =>
    unfold insertBy
    split
    · exact .refl _
    · exact (ih.cons b).trans (.swap a b rest)

theorem sortBy_perm (le : α → α → Bool) (l : List α) : (sortBy le l).Perm l := by
  induction l with
  | nil => exact .refl _
  | cons a rest ih => exact (insertBy_perm le a _).trans (ih.cons a)

@[simp] theorem mem_sortBy {le : α → α → Bool} {a : α} {l : List α} :
    a ∈ sortBy le l ↔ a ∈ l := (sortBy_perm le l).mem_iff

/-- A sorted list is in order, provided that the order is transitive and leaves no two elements
apart. -/
theorem pairwise_insertBy {le : α → α → Bool} (total : ∀ a b, le a b = true ∨ le b a = true)
    (trans : ∀ a b c, le a b = true → le b c = true → le a c = true) (a : α) {l : List α}
    (h : l.Pairwise fun x y => le x y = true) :
    (insertBy le a l).Pairwise fun x y => le x y = true := by
  induction l with
  | nil => exact List.pairwise_singleton _ _
  | cons b rest ih =>
    obtain ⟨above, rest_sorted⟩ := List.pairwise_cons.mp h
    unfold insertBy
    split
    · next first =>
      refine List.pairwise_cons.mpr ⟨fun x hx => ?_, h⟩
      rcases List.mem_cons.mp hx with rfl | hx
      · exact first
      · exact trans a b x first (above x hx)
    · next later =>
      refine List.pairwise_cons.mpr ⟨fun x hx => ?_, ih rest_sorted⟩
      rcases List.mem_cons.mp ((insertBy_perm le a rest).mem_iff.mp hx) with rfl | hx
      · exact (total x b).resolve_left later
      · exact above x hx

theorem pairwise_sortBy {le : α → α → Bool} (total : ∀ a b, le a b = true ∨ le b a = true)
    (trans : ∀ a b c, le a b = true → le b c = true → le a c = true) (l : List α) :
    (sortBy le l).Pairwise fun x y => le x y = true := by
  induction l with
  | nil => exact .nil
  | cons a rest ih => exact pairwise_insertBy total trans a ih

/-- What is kept of a list when repetitions are dropped: only elements of the list, and one for
each of them that it repeats. -/
theorem eraseRepsBy_spec {r : α → α → Bool} (refl : ∀ a, r a a = true) (l : List α) :
    (∀ a ∈ l.eraseRepsBy r, a ∈ l) ∧ ∀ a ∈ l, ∃ b ∈ l.eraseRepsBy r, r b a = true := by
  -- What is kept so far stays, and so does the element that was kept last.
  have loop : ∀ (rest : List α) (a : α) (kept : List α),
      (∀ x ∈ List.eraseRepsBy.loop r a rest kept, x ∈ kept ∨ x = a ∨ x ∈ rest) ∧
        (∀ x, x ∈ kept ∨ x = a → x ∈ List.eraseRepsBy.loop r a rest kept) ∧
        ∀ x ∈ rest, ∃ b ∈ List.eraseRepsBy.loop r a rest kept, r b x = true := by
    intro rest
    induction rest with
    | nil =>
      intro a kept
      simp [List.eraseRepsBy.loop, or_comm]
    | cons a' rest ih =>
      intro a kept
      rw [List.eraseRepsBy.loop]
      split
      · next repeated =>
        obtain ⟨listed, stays, covered⟩ := ih a kept
        refine ⟨fun x hx => ?_, stays, fun x hx => ?_⟩
        · exact (listed x hx).imp_right fun h => h.imp_right (List.mem_cons_of_mem _)
        · rcases List.mem_cons.mp hx with rfl | hx
          · exact ⟨a, stays a (.inr rfl), repeated⟩
          · exact covered x hx
      · obtain ⟨listed, stays, covered⟩ := ih a' (a :: kept)
        refine ⟨fun x hx => ?_, fun x hx => ?_, fun x hx => ?_⟩
        · rcases listed x hx with h | rfl | h
          · rcases List.mem_cons.mp h with rfl | h
            · exact .inr (.inl rfl)
            · exact .inl h
          · exact .inr (.inr List.mem_cons_self)
          · exact .inr (.inr (List.mem_cons_of_mem _ h))
        · refine stays x (.inl (List.mem_cons.mpr ?_))
          exact hx.symm
        · rcases List.mem_cons.mp hx with rfl | hx
          · exact ⟨x, stays x (.inr rfl), refl x⟩
          · exact covered x hx
  cases l with
  | nil => exact ⟨fun a h => h, fun a h => absurd h List.not_mem_nil⟩
  | cons a rest =>
    obtain ⟨listed, stays, covered⟩ := loop rest a []
    refine ⟨fun x hx => ?_, fun x hx => ?_⟩
    · rcases listed x hx with h | rfl | h
      · exact absurd h List.not_mem_nil
      · exact List.mem_cons_self
      · exact List.mem_cons_of_mem _ h
    · rcases List.mem_cons.mp hx with rfl | hx
      · exact ⟨x, stays x (.inr rfl), refl x⟩
      · exact covered x hx

/-- Where repetitions in a list stand next to each other and are dropped, what stays is in strict
order. -/
theorem pairwise_eraseRepsBy {r : α → α → Bool} {le lt : α → α → Prop}
    (strict : ∀ a b, le a b → r a b = false → lt a b)
    (trans : ∀ a b c, lt a b → le b c → lt a c) {l : List α} (sorted : l.Pairwise le) :
    (l.eraseRepsBy r).Pairwise lt := by
  -- What is kept so far is in strict order, and the element that was kept last comes at its end.
  have loop : ∀ (rest : List α) (a : α) (kept : List α), (a :: rest).Pairwise le →
      (kept.reverse ++ [a]).Pairwise lt → (List.eraseRepsBy.loop r a rest kept).Pairwise lt := by
    intro rest
    induction rest with
    | nil =>
      intro a kept _ ascending
      rwa [List.eraseRepsBy.loop, List.reverse_cons]
    | cons b rest ih =>
      intro a kept sorted ascending
      obtain ⟨below, rest_sorted⟩ := List.pairwise_cons.mp sorted
      rw [List.eraseRepsBy.loop]
      split
      · apply ih a kept _ ascending
        exact sorted.sublist ((List.sublist_cons_self b rest).cons_cons a)
      · next different =>
        have step : lt a b := strict a b (below b List.mem_cons_self) different
        apply ih b (a :: kept) rest_sorted
        rw [List.reverse_cons]
        apply List.pairwise_append.mpr ⟨ascending, List.pairwise_singleton _ _, _⟩
        intro x hx y hy
        obtain rfl := List.mem_singleton.mp hy
        rcases List.mem_append.mp hx with hx | hx
        · have before : lt x a :=
            (List.pairwise_append.mp ascending).2.2 x hx a (List.mem_singleton_self a)
          exact trans x a y before (below y List.mem_cons_self)
        · obtain rfl := List.mem_singleton.mp hx
          exact step
  cases l with
  | nil => exact List.Pairwise.nil
  | cons a rest => exact loop rest a [] sorted (List.pairwise_singleton _ _)

@[simp] theorem mem_eraseReps [BEq α] [LawfulBEq α] {a : α} {l : List α} :
    a ∈ l.eraseReps ↔ a ∈ l := by
  obtain ⟨listed, covered⟩ := eraseRepsBy_spec (r := fun a b : α => a == b) (by simp) l
  refine ⟨listed a, fun h => ?_⟩
  obtain ⟨b, hb, same⟩ := covered a h
  rwa [← eq_of_beq same]

end Cohort
