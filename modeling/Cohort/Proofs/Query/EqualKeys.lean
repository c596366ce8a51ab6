import Cohort.Proofs.Condition.KeyMeaning
import Cohort.Proofs.Condition.KeySets
import Cohort.Proofs.Query.Compilation

/-!
# Queries of equal keys

Rules are compared by the keys of their conditions, while their queries are compiled from the
conditions themselves. Keys are enough for this: the queries of conditions with the same keys give
the same rows, whatever the spelling, the order and the repetition of the conditions are.

## Main definitions

* `Condition.IsExact` — JSON has numbers for the values of the condition
* `Condition.Agrees` — the conditions are dropped together or ask for the same

## Main results

* `Query.evaluate_congr` — what a query selects depends on what passes its tests
* `Condition.agrees_of_key_eq` — conditions with one key agree
* `equal_keys_same_rows` — conditions with the same keys select the same rows
-/

namespace Cohort

variable {xs ys : List Condition} {c c' : Condition} {view : View} {q q' : Query}

/-! ## Single conditions -/

namespace Condition

/-- The values of the condition are none of the doubles that JSON has no numbers for. -/
def IsExact (c : Condition) : Prop := ∀ j ∈ c.values, j.IsExact

instance (c : Condition) : Decidable c.IsExact :=
  inferInstanceAs (Decidable (∀ j ∈ c.values, j.IsExact))

/-- Both conditions are dropped, or both are accepted, test one field and hold of the same
values. -/
def Agrees (c c' : Condition) : Prop :=
  match c.accept, c'.accept with
  | .error _, .error _ => True
  | .ok p, .ok p' => p.field = p'.field ∧ ∀ actual, p.holds actual = p'.holds actual
  | _, _ => False

/-- Conditions with one key agree. -/
theorem agrees_of_key_eq (exact : c.IsExact) (exact' : c'.IsExact) (same : c.key = c'.key) :
    c.Agrees c' := by
  have told : NumbersTold (c.values ++ c'.values) :=
    .of_exact (List.forall_mem_append.mpr ⟨exact, exact'⟩)
  have hc : ∀ j ∈ c.values, j ∈ c.values ++ c'.values := fun _ => List.mem_append_left _
  have hc' : ∀ j ∈ c'.values, j ∈ c.values ++ c'.values := fun _ => List.mem_append_right _
  unfold Agrees
  cases found : c.accept with
  | ok p =>
    obtain ⟨p', found', alike⟩ := accept_of_key_eq told hc hc' same found
    rw [found']
    exact ⟨alike.field, alike.holds_eq⟩
  | error reason =>
    cases found' : c'.accept with
    | error reason' => trivial
    | ok p' =>
      -- The other one would be accepted as well.
      obtain ⟨p, accepted, -⟩ := accept_of_key_eq told hc' hc same.symm found'
      rw [found] at accepted
      cases accepted

end Condition

/-! ## Queries -/

/-- What a query selects depends on which transactions and groups pass its tests. -/
theorem Query.evaluate_congr (keeps : ∀ t, q.keeps t = q'.keeps t)
    (keepsGroup : ∀ g, q.keepsGroup g = q'.keepsGroup g) (ts : List Transaction) :
    q.evaluate ts = q'.evaluate ts := by
  unfold evaluate groups
  rw [funext keeps, funext keepsGroup]

/-- Each set has the keys of the other. -/
theorem KeySet.keys_of_ofConditions_eq (same : ofConditions xs = ofConditions ys) :
    ∀ y ∈ ys, ∃ x ∈ xs, x.key = y.key := fun y hy =>
  mem_ofConditions.mp (same ▸ mem_ofConditions.mpr ⟨y, hy, rfl⟩)

/-- Queries of conditions with the same keys select the same rows. -/
theorem Query.evaluate_eq_of_keys (exact : ∀ c ∈ xs ++ ys, c.IsExact)
    (same : KeySet.ofConditions xs = KeySet.ofConditions ys) (ts : List Transaction) :
    (view.compile xs).query.evaluate ts = (view.compile ys).query.evaluate ts := by
  have told : NumbersTold ((xs ++ ys).flatMap Condition.values) := by
    refine .of_exact fun j hj => ?_
    obtain ⟨c, hc, hj⟩ := List.mem_flatMap.mp hj
    exact exact c hc j hj
  have hxs : ∀ x ∈ xs, ∀ j ∈ x.values, j ∈ (xs ++ ys).flatMap Condition.values :=
    fun x hx j hj => List.mem_flatMap.mpr ⟨x, List.mem_append_left _ hx, hj⟩
  have hys : ∀ y ∈ ys, ∀ j ∈ y.values, j ∈ (xs ++ ys).flatMap Condition.values :=
    fun y hy j hj => List.mem_flatMap.mpr ⟨y, List.mem_append_right _ hy, hj⟩
  have keys := KeySet.keys_of_ofConditions_eq same
  have keys' := KeySet.keys_of_ofConditions_eq same.symm
  refine evaluate_congr (fun t => ?_) (fun g => ?_) ts
  · have alike := fun (p q : Predicate) (h : p.Alike q) => h.any_holds_eq t.value?
    rw [Bool.eq_iff_iff, keeps_compile, keeps_compile]
    exact ⟨Condition.passes_of_keys told hxs hys keys alike,
      Condition.passes_of_keys told hys hxs keys' alike⟩
  · have alike := fun (p q : Predicate) (h : p.Alike q) => h.any_holds_eq g.value?
    rw [Bool.eq_iff_iff, keepsGroup_compile, keepsGroup_compile]
    exact ⟨Condition.passes_of_keys told hxs hys keys alike,
      Condition.passes_of_keys told hys hxs keys' alike⟩

/-- Conditions with the same keys select the same rows of any transactions, and two conditions with
one key agree. -/
theorem equal_keys_same_rows (view : View) :
    (∀ xs ys : List Condition, (∀ c ∈ xs ++ ys, c.IsExact) →
      KeySet.ofConditions xs = KeySet.ofConditions ys → ∀ ts,
        (view.compile xs).query.evaluate ts = (view.compile ys).query.evaluate ts) ∧
    ∀ c c' : Condition, c.IsExact → c'.IsExact → c.key = c'.key → c.Agrees c' :=
  ⟨fun _ _ exact same => Query.evaluate_eq_of_keys exact same,
    fun _ _ => Condition.agrees_of_key_eq⟩

private def hundred : Condition := .of "amount" ">=" (.int 100)

private def hundredRespelled : Condition := .of " Amount " ">=" (.float 100.0)

private def paidPlainly : List Condition :=
  [hundred, .of "transaction_type" "IN" (.list [.text "CARD", .text "UPI"]),
    .of "total_spend" "<" (.float 1e30), .of "mood" "=" (.int 1)]

/-- The same in another order and spelling, with repetitions. -/
private def paidRespelled : List Condition :=
  [.of "mood" " = " (.float 1.0), .of "TOTAL_SPEND" "<" (.float 1e30),
    .of "transaction_type" "in" (.list [.text "UPI", .text "UPI", .text "CARD"]),
    hundredRespelled, hundred]

private def paidTransactions : List Transaction :=
  let day : Date := ⟨2024, 4, 1, by decide⟩
  [⟨some "ann", 150.0, day, 1, "UPI", none⟩, ⟨some "bob", 50.0, day, 1, "UPI", none⟩]

theorem equal_keys_same_rows_paid :
    (View.standard.compile paidPlainly).query.evaluate paidTransactions =
      (View.standard.compile paidRespelled).query.evaluate paidTransactions ∧
    (View.standard.compile paidPlainly).query.evaluate paidTransactions ≠ [] ∧
    hundred.Agrees hundredRespelled := by
  obtain ⟨rows, agree⟩ := equal_keys_same_rows View.standard
  refine ⟨rows _ _ ?_ ?_ _, ?_, agree _ _ ?_ ?_ ?_⟩ <;> decide +kernel

end Cohort
