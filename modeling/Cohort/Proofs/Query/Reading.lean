import Mathlib.Data.Finset.Sort
import Mathlib.Data.String.Basic
import Cohort.Proofs.Engine.Selection
import Cohort.Proofs.Query.Compilation

/-!
# What a list of conditions asks for

A list of conditions can be read without compiling it: take the transactions of a user that
satisfy every accepted raw condition, and then ask whether their number and sum satisfy every
accepted aggregate condition. The compiled query selects just these users, although its tests were
split, sorted and freed of repetitions, and its totals were collected in one pass over the
transactions of all users.

## Main definitions

* `Condition.admits` — the condition is dropped, about something else, or satisfied
* `Transaction.matching` — the transactions of a user that satisfy the raw conditions
* `UserRow.ofTransactions` — the row that some transactions of a user make

## Main results

* `Group.foldl_add` — the totals of a group are those of its transactions
* `Query.mem_evaluate` — the rows of a query, user by user
* `rows_compile` — the rows of compiled conditions, as the conditions read
-/

namespace Cohort

variable {cs : List Condition} {c : Condition} {kind : FieldKind} {view : View} {q : Query}
  {ts mine : List Transaction} {user : Option String} {row : UserRow}

/-! ## The reading of conditions -/

/-- Unless the condition is dropped or about another kind of fields, the value of its field
satisfies it. -/
def Condition.admits (kind : FieldKind) (value? : Field → Option Literal) (c : Condition) : Bool :=
  match c.accept with
  | .error _ => true
  | .ok p => p.field.kind != kind || (value? p.field).any p.holds

namespace Transaction

/-- The transactions of a user that satisfy every accepted raw condition. -/
def matching (cs : List Condition) (ts : List Transaction) (user : Option String) :
    List Transaction :=
  ts.filter fun t => decide (t.user = user) && cs.all (Condition.admits .raw t.value?)

/-- The sum of the amounts, from the first transaction to the last one. -/
def spent (mine : List Transaction) : Float := mine.foldl (fun sum t => sum + t.amount) 0.0

/-- The different types of transactions in ascending order. -/
def kinds (mine : List Transaction) : List String :=
  (mine.map Transaction.kind).toFinset.sort

/-- The values of the aggregate fields. -/
def total? (mine : List Transaction) : Field → Option Literal
  | .totalSpend => some (.number (spent mine))
  | .transactionCount => some (.number (Decimal.ofWhole mine.length))
  | _ => none

end Transaction

/-- The row of a user with some transactions. -/
def UserRow.ofTransactions (user : Option String) (mine : List Transaction) : UserRow :=
  ⟨user, mine.length, Transaction.spent mine, ",".intercalate (Transaction.kinds mine)⟩

theorem Condition.all_admits_iff {value? : Field → Option Literal} :
    cs.all (admits kind value?) = true ↔
      ∀ c ∈ cs, ∀ p, c.accept = .ok p → p.field.kind = kind →
        (value? p.field).any p.holds = true := by
  rw [List.all_eq_true]
  refine forall₂_congr fun c _ => ?_
  unfold admits
  cases c.accept with
  | error reason => simp
  | ok p =>
    simp only [Bool.or_eq_true, bne_iff_ne, Except.ok.injEq, forall_eq']
    exact or_iff_not_imp_left.trans (by rw [not_not])

/-! ## Totals -/

namespace Group

variable {k added : String} {kinds : List String}

theorem mem_insertKind : k ∈ insertKind added kinds ↔ k = added ∨ k ∈ kinds := by
  induction kinds with
  | nil => rw [insertKind, List.mem_singleton, or_iff_left List.not_mem_nil]
  | cons first rest ih =>
    rw [insertKind]
    split
    · exact List.mem_cons
    · split
      · next same =>
        -- The type is there already.
        rw [same, List.mem_cons]
        exact ⟨.inr, fun h => h.elim .inl id⟩
      · rw [List.mem_cons, ih, List.mem_cons]
        exact or_left_comm

theorem ascending_insertKind (h : kinds.Pairwise (· < ·)) :
    (insertKind added kinds).Pairwise (· < ·) := by
  induction kinds with
  | nil => exact List.pairwise_singleton _ _
  | cons first rest ih =>
    obtain ⟨below, rest_ascending⟩ := List.pairwise_cons.mp h
    rw [insertKind]
    split
    · next before =>
      refine List.pairwise_cons.mpr ⟨fun k hk => ?_, h⟩
      rcases List.mem_cons.mp hk with rfl | hk
      · exact before
      · exact before.trans (below k hk)
    · next not_before =>
      split
      · exact h
      · next other =>
        -- The type comes later, so it stays behind the first one.
        refine List.pairwise_cons.mpr ⟨fun k hk => ?_, ih rest_ascending⟩
        rcases mem_insertKind.mp hk with rfl | hk
        · exact lt_of_le_of_ne (not_lt.mp not_before) (Ne.symm other)
        · exact below k hk

/-- The types in a group are the different types of its transactions in ascending order. -/
theorem kinds_foldl_add (mine : List Transaction) :
    (mine.foldl add {}).kinds = Transaction.kinds mine := by
  have collected : (mine.foldl add {}).kinds.Pairwise (· < ·) ∧
      ∀ k, k ∈ (mine.foldl add {}).kinds ↔ k ∈ mine.map Transaction.kind := by
    induction mine using List.reverseRecOn with
    | nil => exact ⟨List.Pairwise.nil, fun k => Iff.rfl⟩
    | append_singleton mine t ih =>
      rw [List.foldl_append, List.foldl_cons, List.foldl_nil]
      refine ⟨ascending_insertKind ih.1, fun k => ?_⟩
      rw [add, mem_insertKind, ih.2, List.map_append, List.mem_append, List.map_singleton,
        List.mem_singleton, or_comm]
  have sorted : (Transaction.kinds mine).Pairwise (· < ·) := (Finset.sortedLT_sort _).pairwise
  refine collected.1.eq_of_mem_iff sorted fun k => ?_
  rw [collected.2, Transaction.kinds, Finset.mem_sort, List.mem_toFinset]

/-- The totals of a group are those of its transactions. -/
theorem foldl_add (mine : List Transaction) : mine.foldl add {} =
    ⟨mine.length, Transaction.spent mine, Transaction.kinds mine⟩ := by
  have collected : ∀ g : Group, (mine.foldl add g).count = g.count + mine.length ∧
      (mine.foldl add g).spent = mine.foldl (fun sum t => sum + t.amount) g.spent := by
    induction mine with
    | nil => exact fun g => ⟨rfl, rfl⟩
    | cons t rest ih =>
      intro g
      obtain ⟨count, spent⟩ := ih (g.add t)
      rw [List.foldl_cons, count, spent, List.length_cons, List.foldl_cons]
      exact ⟨Nat.add_right_comm g.count 1 rest.length, rfl⟩
  obtain ⟨count, spent⟩ := collected {}
  rw [← kinds_foldl_add]
  calc mine.foldl add {}
      = ⟨(mine.foldl add {}).count, (mine.foldl add {}).spent, (mine.foldl add {}).kinds⟩ := rfl
    _ = _ := by rw [count, spent, Nat.zero_add, Transaction.spent]

/-- A group has the values of its transactions. -/
theorem value?_foldl_add (mine : List Transaction) :
    (mine.foldl add {}).value? = Transaction.total? mine := by
  rw [foldl_add]
  funext field
  cases field <;> rfl

end Group

/-! ## Rows -/

namespace Query

/-- A query has the rows of the users that it selects. -/
theorem mem_evaluate : row ∈ q.evaluate ts ↔
    ∃ user, q.Selects ts user ∧ row = UserRow.ofTransactions user (q.keptOf ts user) := by
  simp only [evaluate, List.mem_map, List.mem_filter]
  constructor
  · rintro ⟨⟨user, g⟩, ⟨hg, keeps⟩, rfl⟩
    obtain ⟨some_kept, rfl⟩ := mem_groups.mp hg
    refine ⟨user, ⟨some_kept, keeps⟩, ?_⟩
    rw [Group.foldl_add]
    rfl
  · rintro ⟨user, ⟨some_kept, keeps⟩, rfl⟩
    refine ⟨(user, _), ⟨mem_groups.mpr ⟨some_kept, rfl⟩, keeps⟩, ?_⟩
    rw [Group.foldl_add]
    rfl

/-- Compiled conditions keep the transactions that satisfy them. -/
theorem keptOf_compile (view : View) (cs : List Condition) (ts : List Transaction)
    (user : Option String) :
    (view.compile cs).query.keptOf ts user = Transaction.matching cs ts user := by
  unfold keptOf Transaction.matching
  rw [List.filter_filter]
  refine List.filter_congr fun t _ => congrArg _ ?_
  rw [Bool.eq_iff_iff, keeps_compile, Condition.all_admits_iff]

end Query

/-- Compiled conditions select one row for each user with a transaction that satisfies all accepted
raw conditions, if the number and the sum of these transactions satisfy all accepted aggregate
conditions. The row has this number, this sum and the different types of these transactions, and
the rows come in the order of users, the unknown one first. -/
theorem rows_compile (view : View) (cs : List Condition) (ts : List Transaction) :
    ((view.compile cs).query.evaluate ts).Pairwise
        (fun a b => userBefore a.user b.user = true) ∧
      ∀ row, row ∈ (view.compile cs).query.evaluate ts ↔
        ∃ user, Transaction.matching cs ts user ≠ [] ∧
          cs.all (Condition.admits .aggregate
            (Transaction.total? (Transaction.matching cs ts user))) = true ∧
          row = UserRow.ofTransactions user (Transaction.matching cs ts user) := by
  refine ⟨Query.evaluate_inOrder _ ts, fun row => Query.mem_evaluate.trans ?_⟩
  refine exists_congr fun user => ?_
  rw [Query.Selects, Query.keptOf_compile, Query.keepsGroup_compile, Group.value?_foldl_add,
    Condition.all_admits_iff, and_assoc]

end Cohort
