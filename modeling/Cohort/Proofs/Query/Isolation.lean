import Cohort.Proofs.Query.Canonical

/-!
# Malformed conditions stand alone

A condition that makes no sense is dropped with a warning, and that is all it does. The warnings
about a list are those about its parts, whatever stands before and after them, and the query is the
one of the conditions that were not dropped. Each condition is accounted for once: it is either
warned about, for the reason that it has by itself, or its test is in the query.

## Main definitions

* `Warning.shift` — the warning about the same condition further down in a list
* `Condition.unwarned` — the conditions of a list that no warning is about

## Main results

* `rejectedFrom_append` — the warnings about a list are those about its parts
* `filter_rejectedFrom` — a condition is warned about as it is by itself
* `unwarned_rejectedFrom` — what no warning is about is accepted
* `malformed_isolated` — all of this, and what it means for a compiled query
-/

namespace Cohort

variable {cs xs ys : List Condition} {c : Condition} {n : Nat} {w : Warning}

/-! ## Warnings about parts of a list -/

/-- The warning about the same condition, with so many conditions before the list. -/
def Warning.shift (n : Nat) (w : Warning) : Warning := { w with index := n + w.index }

theorem rejectedFrom_eq_map (n : Nat) (cs : List Condition) :
    rejectedFrom n cs = (rejectedFrom 0 cs).map (Warning.shift n) := by
  induction cs generalizing n with
  | nil => rfl
  | cons c rest ih =>
    have later : rejectedFrom (n + 1) rest =
        (rejectedFrom (0 + 1) rest).map (Warning.shift n) := by
      rw [ih (n + 1), ih (0 + 1), List.map_map]
      apply List.map_congr_left
      intro w _
      simp only [Warning.shift, Function.comp_apply, Nat.zero_add, Nat.add_assoc]
    rw [rejectedFrom, rejectedFrom]
    cases c.accept with
    | ok p => exact later
    | error reason => rw [List.map_cons, ← later]; rfl

/-- The warnings about a list are those about its first part, and then those about the rest. -/
theorem rejectedFrom_append (n : Nat) (xs ys : List Condition) :
    rejectedFrom n (xs ++ ys) = rejectedFrom n xs ++ rejectedFrom (n + xs.length) ys := by
  induction xs generalizing n with
  | nil => rfl
  | cons c rest ih =>
    have place : n + 1 + rest.length = n + (c :: rest).length := by
      rw [List.length_cons]
      omega
    rw [List.cons_append, rejectedFrom, rejectedFrom, ih, place]
    cases c.accept with
    | ok p => rfl
    | error reason => rfl

theorem le_index_of_mem_rejectedFrom (h : w ∈ rejectedFrom n cs) : n ≤ w.index := by
  rw [rejectedFrom_eq_map] at h
  obtain ⟨w, -, rfl⟩ := List.mem_map.mp h
  exact Nat.le_add_right n w.index

/-! ## Warnings about single conditions -/

theorem rejectedFrom_singleton_of_ok {p : Predicate} (h : c.accept = .ok p) :
    rejectedFrom n [c] = [] := by
  rw [rejectedFrom, h]
  rfl

theorem rejectedFrom_singleton_of_error {reason : Rejection} (h : c.accept = .error reason) :
    rejectedFrom n [c] = [⟨n, c, reason⟩] := by
  rw [rejectedFrom, h]
  rfl

/-- The warnings about one condition of a list are those about this condition by itself. -/
theorem filter_rejectedFrom (n : Nat) (cs : List Condition) (i : Fin cs.length) :
    (rejectedFrom n cs).filter (fun w => w.index == n + i) = rejectedFrom (n + i) [cs[i]] := by
  induction cs generalizing n with
  | nil => exact i.elim0
  | cons c rest ih =>
    have parts : rejectedFrom n (c :: rest) = rejectedFrom n [c] ++ rejectedFrom (n + 1) rest :=
      rejectedFrom_append n [c] rest
    have here : ∀ w ∈ rejectedFrom n [c], w.index = n := by
      intro w hw
      cases accepted : c.accept with
      | ok p =>
        rw [rejectedFrom_singleton_of_ok accepted] at hw
        cases hw
      | error reason =>
        rw [rejectedFrom_singleton_of_error accepted] at hw
        rw [List.mem_singleton.mp hw]
    rw [parts, List.filter_append]
    cases i using Fin.cases with
    | zero =>
      -- The warnings about the rest are about later conditions.
      have first : (rejectedFrom n [c]).filter (fun w => w.index == n + 0) = rejectedFrom n [c] :=
        List.filter_eq_self.mpr fun w hw => by simp [here w hw]
      have others : (rejectedFrom (n + 1) rest).filter (fun w => w.index == n + 0) = [] :=
        List.filter_eq_nil_iff.mpr fun w hw => by
          have later := le_index_of_mem_rejectedFrom hw
          simp only [Nat.add_zero, beq_iff_eq]
          omega
      exact (congrArg₂ (· ++ ·) first others).trans (List.append_nil _)
    | succ j =>
      have first : (rejectedFrom n [c]).filter (fun w => w.index == n + (j + 1)) = [] :=
        List.filter_eq_nil_iff.mpr fun w hw => by
          rw [here w hw, beq_iff_eq]
          omega
      have others := ih (n + 1) j
      rw [show n + 1 + (j : Nat) = n + (j + 1) by omega] at others
      exact (congrArg₂ (· ++ ·) first others).trans (List.nil_append _)

/-- The conditions of a list that no warning is about. -/
def Condition.unwarned (warnings : List Warning) (cs : List Condition) : List Condition :=
  (cs.zipIdx.filter fun (_, i) => !warnings.any fun w => w.index == i).map Prod.fst

/-- A condition is warned about just if it is rejected. -/
theorem any_rejectedFrom (cs : List Condition) (i : Fin cs.length) :
    (rejectedFrom 0 cs).any (fun w => w.index == i) = !cs[i].accept.isOk := by
  have alone := filter_rejectedFrom 0 cs i
  rw [Nat.zero_add] at alone
  cases accepted : cs[i].accept with
  | ok p =>
    rw [rejectedFrom_singleton_of_ok accepted, List.filter_eq_nil_iff] at alone
    exact List.any_eq_false.mpr alone
  | error reason =>
    rw [rejectedFrom_singleton_of_error accepted] at alone
    have warned : (⟨i, cs[i], reason⟩ : Warning) ∈
        (rejectedFrom 0 cs).filter fun w => w.index == i.val := by
      rw [alone]
      exact List.mem_singleton_self _
    obtain ⟨listed, about⟩ := List.mem_filter.mp warned
    exact List.any_eq_true.mpr ⟨_, listed, about⟩

/-- What no warning is about is accepted, and the other way round. -/
theorem unwarned_rejectedFrom (cs : List Condition) :
    Condition.unwarned (rejectedFrom 0 cs) cs = cs.filter fun c => c.accept.isOk := by
  have accepted : ∀ p ∈ cs.zipIdx,
      (!(rejectedFrom 0 cs).any fun w => w.index == p.2) = p.1.accept.isOk := by
    rintro ⟨c, i⟩ listed
    obtain ⟨inside, same⟩ := List.mem_zipIdx' listed
    have warned := any_rejectedFrom cs ⟨i, inside⟩
    dsimp only at same ⊢
    rw [warned, Bool.not_not, same]
    rfl
  rw [Condition.unwarned, List.filter_congr accepted]
  conv_rhs => rw [← List.zipIdx_map_fst 0 cs, List.filter_map]
  rfl

/-- Accepted conditions are not warned about. -/
theorem rejectedFrom_filter_isOk (n : Nat) (cs : List Condition) :
    rejectedFrom n (cs.filter fun c => c.accept.isOk) = [] := by
  induction cs generalizing n with
  | nil => rfl
  | cons c rest ih =>
    cases accepted : c.accept with
    | ok p =>
      rw [List.filter_cons_of_pos (by rw [accepted]; rfl), rejectedFrom, accepted]
      exact ih (n + 1)
    | error reason =>
      rw [List.filter_cons_of_neg (by rw [accepted]; exact Bool.false_ne_true)]
      exact ih n

/-- A rejected condition makes no test. -/
theorem acceptedOf_filter_isOk (cs : List Condition) :
    acceptedOf (cs.filter fun c => c.accept.isOk) = acceptedOf cs := by
  rw [acceptedOf, List.filterMap_filter]
  apply List.filterMap_congr
  intro c _
  cases c.accept <;> rfl

/-! ## Compiled queries -/

/-- The tests of a query have different texts. -/
theorem Query.Lists.nodup {view : View} {q : Query} (h : q.Lists view cs) :
    ((q.filters ++ q.having).map Predicate.render).Nodup := by
  rw [List.map_append]
  apply List.nodup_append.mpr ⟨h.filters_ascending.imp ne_of_lt, h.having_ascending.imp ne_of_lt, _⟩
  rintro text raw _ aggregate rfl
  obtain ⟨c, -, renders⟩ := (h.mem_filters text).mp raw
  obtain ⟨c', -, renders'⟩ := (h.mem_having text).mp aggregate
  cases renders.kind_eq renders'

/-- The test of an accepted condition is in the query, once. -/
theorem Query.Lists.count_eq_one {view : View} {q : Query} {p : Predicate} (h : q.Lists view cs)
    (hc : c ∈ cs) (hp : c.accept = .ok p) :
    ((q.filters ++ q.having).map Predicate.render).count p.render = 1 := by
  apply List.count_eq_one_of_mem h.nodup
  rw [List.map_append, List.mem_append, h.mem_filters, h.mem_having]
  cases kind : p.field.kind with
  | raw => exact .inl ⟨c, hc, p, hp, kind, rfl⟩
  | aggregate => exact .inr ⟨c, hc, p, hp, kind, rfl⟩

/-- The warnings about two lists in one are those about each of them, and the query of a list is
the one of the conditions without warnings, about which there are none. Each condition is either
warned about once, for the reason that it has by itself, or its test is in the query once. -/
theorem malformed_isolated (view : View) (xs ys : List Condition) :
    (view.compile (xs ++ ys)).warnings =
        (view.compile xs).warnings ++ (view.compile ys).warnings.map (Warning.shift xs.length) ∧
    (view.compile (Condition.unwarned (view.compile xs).warnings xs)).query =
        (view.compile xs).query ∧
    (∀ i : Fin xs.length,
      (∃ reason,
        (view.compile xs).warnings.filter (fun w => w.index == i.val) = [⟨i, xs[i], reason⟩] ∧
        (view.compile [xs[i]]).warnings = [⟨0, xs[i], reason⟩]) ∨
      (view.compile xs).warnings.filter (fun w => w.index == i.val) = [] ∧
        ∃ p, xs[i].accept = .ok p ∧
          (((view.compile xs).query.filters ++ (view.compile xs).query.having).map
            Predicate.render).count p.render = 1) ∧
    (view.compile (Condition.unwarned (view.compile xs).warnings xs)).warnings = [] := by
  have kept : Condition.unwarned (view.compile xs).warnings xs =
      xs.filter fun c => c.accept.isOk := unwarned_rejectedFrom xs
  rw [kept]
  refine ⟨?_, ?_, fun i => ?_, rejectedFrom_filter_isOk 0 xs⟩
  · change rejectedFrom 0 (xs ++ ys) = rejectedFrom 0 xs ++ (rejectedFrom 0 ys).map _
    rw [rejectedFrom_append, Nat.zero_add, rejectedFrom_eq_map xs.length]
  · simp only [View.compile, acceptedOf_filter_isOk]
  · have alone := filter_rejectedFrom 0 xs i
    rw [Nat.zero_add] at alone
    cases accepted : xs[i].accept with
    | error reason =>
      rw [rejectedFrom_singleton_of_error accepted] at alone
      exact .inl ⟨reason, alone, rejectedFrom_singleton_of_error accepted⟩
    | ok p =>
      rw [rejectedFrom_singleton_of_ok accepted] at alone
      exact .inr ⟨alone, p, rfl,
        (compile_lists view xs).count_eq_one (List.getElem_mem i.isLt) accepted⟩

end Cohort
