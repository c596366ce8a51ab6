/-!
# Finite maps as lists

A map is a list of pairs in which a key is looked up from the front. Putting a value
under a key that is there replaces the value and keeps its place.

## Main definitions

* `Assoc.get?`, `Assoc.put`, `Assoc.erase` — the operations
-/

namespace Cohort.Assoc

variable {κ α : Type} [DecidableEq κ]

/-- The value under a key. -/
def get? (k : κ) : List (κ × α) → Option α
  | [] => none
  | (l, a) :: rest => if l = k then some a else get? k rest

/-- The map with a value under a key. -/
def put (k : κ) (a : α) : List (κ × α) → List (κ × α)
  | [] => [(k, a)]
  | (l, b) :: rest => if l = k then (k, a) :: rest else (l, b) :: put k a rest

/-- The map without a key. -/
def erase (k : κ) (m : List (κ × α)) : List (κ × α) := m.filter fun p => p.1 ≠ k

/-- The map has a key. -/
def has (k : κ) (m : List (κ × α)) : Bool := (get? k m).isSome

@[simp] theorem get?_nil (k : κ) : get? k ([] : List (κ × α)) = none := rfl

theorem get?_put (k l : κ) (a : α) (m : List (κ × α)) :
    get? l (put k a m) = if k = l then some a else get? l m := by
  induction m with
  | nil => simp [put, get?]
  | cons p rest ih =>
    obtain ⟨q, b⟩ := p
    by_cases hq : q = k
    · subst hq
      by_cases hl : q = l <;> simp [put, get?, hl]
    · by_cases hl : q = l
      · subst hl
        simp [put, get?, hq, Ne.symm hq]
      · simp [put, get?, hq, hl, ih]

theorem get?_erase (k l : κ) (m : List (κ × α)) :
    get? l (erase k m) = if k = l then none else get? l m := by
  induction m with
  | nil => simp [erase]
  | cons p rest ih =>
    obtain ⟨q, b⟩ := p
    unfold erase at ih ⊢
    by_cases hq : q = k
    · subst hq
      by_cases hl : q = l
      · subst hl
        simpa [get?] using ih
      · simpa [get?, hl] using ih
    · by_cases hl : q = l
      · subst hl
        simp [get?, hq, Ne.symm hq]
      · simpa [get?, hq, hl] using ih

/-- In a table of a function the value under a key is that of the function. -/
theorem get?_map_self {f : κ → α} {k : κ} {keys : List κ} (h : k ∈ keys) :
    get? k (keys.map fun l => (l, f l)) = some (f k) := by
  induction keys with
  | nil => cases h
  | cons l rest ih =>
    by_cases hl : l = k
    · simp [get?, hl]
    · simpa [get?, hl] using ih ((List.mem_cons.mp h).resolve_left (Ne.symm hl))

theorem mem_of_get? {k : κ} {a : α} {m : List (κ × α)} (h : get? k m = some a) : (k, a) ∈ m := by
  induction m with
  | nil => cases h
  | cons p rest ih =>
    obtain ⟨q, b⟩ := p
    by_cases hq : q = k
    · simp_all [get?]
    · simp only [get?, if_neg hq] at h
      exact List.mem_cons_of_mem _ (ih h)

theorem get?_eq_none {k : κ} {m : List (κ × α)} : get? k m = none ↔ k ∉ m.map Prod.fst := by
  induction m with
  | nil => simp
  | cons p rest ih =>
    obtain ⟨q, b⟩ := p
    by_cases hq : q = k
    · simp [get?, hq]
    · simp [get?, hq, ih, Ne.symm hq]

theorem get?_eq_some {k : κ} {a : α} {m : List (κ × α)} (distinct : (m.map Prod.fst).Nodup) :
    get? k m = some a ↔ (k, a) ∈ m := by
  refine ⟨mem_of_get?, fun h => ?_⟩
  induction m with
  | nil => cases h
  | cons p rest ih =>
    obtain ⟨q, b⟩ := p
    simp only [List.map_cons, List.nodup_cons] at distinct
    by_cases hq : q = k
    · subst hq
      have here : (q, a) = (q, b) := (List.mem_cons.mp h).resolve_right fun hr =>
        distinct.1 (List.mem_map.mpr ⟨_, hr, rfl⟩)
      simp [get?, (Prod.mk.inj here).2]
    · have there : (k, a) ∈ rest := (List.mem_cons.mp h).resolve_left fun he =>
        hq (Prod.mk.inj he).1.symm
      simpa [get?, hq] using ih distinct.2 there

theorem keys_put (k : κ) (a : α) (m : List (κ × α)) :
    (put k a m).map Prod.fst =
      if k ∈ m.map Prod.fst then m.map Prod.fst else m.map Prod.fst ++ [k] := by
  induction m with
  | nil => simp [put]
  | cons p rest ih =>
    obtain ⟨q, b⟩ := p
    by_cases hq : q = k
    · simp [put, hq]
    · simp only [put, if_neg hq, List.map_cons, ih, List.mem_cons, Ne.symm hq, false_or]
      split <;> simp

theorem nodup_keys_put {k : κ} {a : α} {m : List (κ × α)} (distinct : (m.map Prod.fst).Nodup) :
    ((put k a m).map Prod.fst).Nodup := by
  rw [keys_put]
  split
  · exact distinct
  · next hk =>
    rw [List.nodup_append]
    refine ⟨distinct, by simp, fun x hx y hy hxy => ?_⟩
    rw [List.mem_singleton] at hy
    exact hk (hy ▸ hxy ▸ hx)

theorem nodup_keys_erase {k : κ} {m : List (κ × α)} (distinct : (m.map Prod.fst).Nodup) :
    ((erase k m).map Prod.fst).Nodup :=
  distinct.sublist (List.filter_sublist.map _)

theorem mem_put {k : κ} {a : α} {m : List (κ × α)} {p : κ × α} (h : p ∈ put k a m) :
    p = (k, a) ∨ p ∈ m := by
  induction m with
  | nil => exact .inl (List.mem_singleton.mp h)
  | cons q rest ih =>
    obtain ⟨l, b⟩ := q
    by_cases hl : l = k
    · rw [put, if_pos hl, List.mem_cons] at h
      exact h.imp_right (List.mem_cons_of_mem _)
    · rw [put, if_neg hl, List.mem_cons] at h
      rcases h with rfl | h
      · exact .inr (List.mem_cons_self ..)
      · exact (ih h).imp_right (List.mem_cons_of_mem _)

/-- Putting the value that is there changes nothing. -/
theorem put_of_get?_eq_some {k : κ} {a : α} {m : List (κ × α)} (h : get? k m = some a) :
    put k a m = m := by
  induction m with
  | nil => cases h
  | cons p rest ih =>
    obtain ⟨q, b⟩ := p
    by_cases hq : q = k
    · rw [get?, if_pos hq] at h
      rw [put, if_pos hq, hq, Option.some.inj h]
    · rw [get?, if_neg hq] at h
      rw [put, if_neg hq, ih h]

/-- Removing a key that is not there changes nothing. -/
theorem erase_of_get?_eq_none {k : κ} {m : List (κ × α)} (h : get? k m = none) :
    erase k m = m := by
  rw [get?_eq_none] at h
  refine List.filter_eq_self.mpr fun p hp => ?_
  rw [decide_eq_true_eq]
  rintro rfl
  exact h (List.mem_map_of_mem hp)

/-- Removing a key that has just been added gives back the map from before. -/
theorem erase_put_of_get?_eq_none {k : κ} {a : α} {m : List (κ × α)} (h : get? k m = none) :
    erase k (put k a m) = m := by
  induction m with
  | nil => simp [put, erase]
  | cons p rest ih =>
    obtain ⟨q, b⟩ := p
    by_cases hq : q = k
    · simp [get?, hq] at h
    · rw [get?, if_neg hq] at h
      have tail := ih h
      unfold erase at tail ⊢
      rw [put, if_neg hq, List.filter_cons_of_pos (by simpa using hq), tail]

@[simp] theorem put_put (k : κ) (a b : α) (m : List (κ × α)) :
    put k b (put k a m) = put k b m := by
  induction m with
  | nil => simp [put]
  | cons p rest ih =>
    obtain ⟨q, x⟩ := p
    by_cases hq : q = k
    · simp [put, hq]
    · simp [put, hq, ih]

end Cohort.Assoc
