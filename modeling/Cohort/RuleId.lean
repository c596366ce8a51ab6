import Cohort.Power

/-!
# Rule identifiers

A rule is known by a number of 64 bits. The segment that holds the users of a rule
has the same number.
-/

namespace Cohort

/-- The identifier of a rule and of its segment. -/
structure RuleId where
  val : UInt64
  deriving DecidableEq, Repr, Inhabited

namespace RuleId

/-- The identifier with a number below `2 ^ 64`. -/
def ofNat (n : Nat) : RuleId := ⟨UInt64.ofNat n⟩

/-- The number of an identifier. -/
def toNat (id : RuleId) : Nat := id.val.toNat

/-- How many identifiers there are. -/
def count : Nat := twoTo 64

/-- The number as text. -/
def text (id : RuleId) : String := Nat.repr id.toNat

/-- Identifiers are ordered by their numbers. -/
def le (a b : RuleId) : Bool := decide (a.toNat ≤ b.toNat)

instance : LE RuleId := ⟨fun a b => a.toNat ≤ b.toNat⟩

instance : LT RuleId := ⟨fun a b => a.toNat < b.toNat⟩

instance (a b : RuleId) : Decidable (a ≤ b) := inferInstanceAs (Decidable (a.toNat ≤ b.toNat))

instance (a b : RuleId) : Decidable (a < b) := inferInstanceAs (Decidable (a.toNat < b.toNat))

theorem lt_iff {a b : RuleId} : a < b ↔ a.toNat < b.toNat := Iff.rfl

theorem toNat_lt_count (id : RuleId) : id.toNat < count := id.val.toNat_lt

theorem toNat_inj {a b : RuleId} : a.toNat = b.toNat ↔ a = b := by
  constructor
  · intro h
    cases a
    cases b
    exact congrArg RuleId.mk (UInt64.toNat_inj.mp h)
  · rintro rfl
    rfl

/-- Puts an identifier into an ascending list of distinct ones. -/
def insertAscending (id : RuleId) : List RuleId → List RuleId
  | [] => [id]
  | x :: rest =>
    if id < x then id :: x :: rest
    else if id = x then x :: rest
    else x :: insertAscending id rest

/-- The identifiers of a list in ascending order, each once. -/
def ascending (ids : List RuleId) : List RuleId :=
  ids.foldl (fun sorted id => insertAscending id sorted) []

theorem mem_insertAscending {a id : RuleId} {ids : List RuleId} :
    a ∈ insertAscending id ids ↔ a = id ∨ a ∈ ids := by
  induction ids with
  | nil => simp [insertAscending]
  | cons x rest ih =>
    unfold insertAscending
    split
    · simp
    · split
      · next hx => simp [hx]
      · simp only [List.mem_cons, ih]
        exact or_left_comm

theorem ascending_insertAscending {id : RuleId} {ids : List RuleId} (h : ids.Pairwise (· < ·)) :
    (insertAscending id ids).Pairwise (· < ·) := by
  induction ids with
  | nil => simp [insertAscending]
  | cons x rest ih =>
    obtain ⟨below, rest_ascending⟩ := List.pairwise_cons.mp h
    unfold insertAscending
    split
    · next hx =>
      refine List.pairwise_cons.mpr ⟨fun y hy => ?_, h⟩
      rcases List.mem_cons.mp hy with rfl | hy
      · exact hx
      · have later := below y hy
        rw [lt_iff] at hx later ⊢
        omega
    · next hx =>
      split
      · exact h
      · next hne =>
        refine List.pairwise_cons.mpr ⟨fun y hy => ?_, ih rest_ascending⟩
        rcases mem_insertAscending.mp hy with rfl | hy
        · have distinct : x.toNat ≠ y.toNat := fun same => hne (toNat_inj.mp same.symm)
          rw [lt_iff] at hx ⊢
          omega
        · exact below y hy

@[simp] theorem mem_ascending {a : RuleId} {ids : List RuleId} : a ∈ ascending ids ↔ a ∈ ids := by
  have general : ∀ sorted : List RuleId,
      a ∈ ids.foldl (fun sorted id => insertAscending id sorted) sorted ↔ a ∈ sorted ∨ a ∈ ids := by
    induction ids with
    | nil => simp
    | cons x rest ih =>
      intro sorted
      rw [List.foldl_cons, ih, mem_insertAscending, List.mem_cons, or_comm (a := a = x), or_assoc]
  exact (general []).trans (by simp)

theorem pairwise_ascending (ids : List RuleId) : (ascending ids).Pairwise (· < ·) := by
  have general : ∀ sorted : List RuleId, sorted.Pairwise (· < ·) →
      (ids.foldl (fun sorted id => insertAscending id sorted) sorted).Pairwise (· < ·) := by
    induction ids with
    | nil => exact fun _ h => h
    | cons x rest ih => exact fun sorted h => ih _ (ascending_insertAscending h)
  exact general [] List.Pairwise.nil

theorem nodup_of_pairwise_lt {ids : List RuleId} (h : ids.Pairwise (· < ·)) : ids.Nodup := by
  refine h.imp fun {a b} h heq => ?_
  rw [heq] at h
  exact Nat.lt_irrefl _ h

theorem nodup_ascending (ids : List RuleId) : (ascending ids).Nodup :=
  nodup_of_pairwise_lt (pairwise_ascending ids)

end RuleId

end Cohort
