import Mathlib.Data.List.Induction
import Mathlib.Tactic.ByContra
import Cohort.Assoc
import Cohort.Engine.Evaluate

/-!
# Selected users

A query groups the transactions that pass its filters by user. Whether it selects a user
depends on that user's transactions alone: at least one of them must pass the filters, and those
that do must pass the further tests together. Set operations then combine the users of datasets
as sets.

## Main definitions

* `Query.keptOf` — the transactions of a user that pass the filters
* `Query.Selects` — the query selects a user

## Main results

* `Query.evaluate_inOrder`, `Query.mem_users_evaluate` — the users in the rows of a query
* `Dataset.mem_users_combine` — the users in the intersection of datasets
-/

namespace Cohort

/-! ## The order of users -/

section UserOrder

variable {a b c : Option String}

theorem userBefore_irrefl (a : Option String) : userBefore a a = false := by
  cases a <;> simp [userBefore]

theorem userBefore_trans (hab : userBefore a b = true) (hbc : userBefore b c = true) :
    userBefore a c = true := by
  cases a <;> cases b <;> cases c <;> simp_all only [userBefore, decide_eq_true_eq,
    Bool.false_eq_true]
  exact String.lt_trans hab hbc

/-- Of two different users one comes before the other. -/
theorem userBefore_of_ne (hab : userBefore a b = false) (hne : a ≠ b) :
    userBefore b a = true := by
  cases a with
  | none => cases b <;> simp_all [userBefore]
  | some x =>
    cases b with
    | none => rfl
    | some y =>
      simp only [userBefore, decide_eq_false_iff_not, decide_eq_true_eq] at hab ⊢
      by_contra hba
      have same : x = y := String.le_antisymm (String.not_lt.mp hba) (String.not_lt.mp hab)
      exact hne (congrArg some same)

theorem ne_of_userBefore (hab : userBefore a b = true) : a ≠ b := by
  rintro rfl
  rw [userBefore_irrefl] at hab
  cases hab

end UserOrder

/-! ## Grouping by user -/

section Groups

variable {t : Transaction} {user : Option String} {groups : List (Option String × Group)}

/-- The groups are in the order of their users, and no user has two of them. -/
def GroupsInOrder (groups : List (Option String × Group)) : Prop :=
  groups.Pairwise fun g h => userBefore g.1 h.1 = true

theorem GroupsInOrder.nodup (h : GroupsInOrder groups) : (groups.map Prod.fst).Nodup :=
  List.pairwise_map.mpr (h.imp ne_of_userBefore)

theorem mem_addToGroups {g : Option String × Group} (h : g ∈ addToGroups t groups) :
    g.1 = t.user ∨ g ∈ groups := by
  induction groups with
  | nil =>
    obtain rfl := List.mem_singleton.mp h
    exact .inl rfl
  | cons first rest ih =>
    obtain ⟨name, group⟩ := first
    simp only [addToGroups] at h
    split at h
    · rcases List.mem_cons.mp h with rfl | h
      · exact .inl rfl
      · exact .inr h
    · split at h
      · next same =>
        rcases List.mem_cons.mp h with rfl | h
        · exact .inl same.symm
        · exact .inr (List.mem_cons_of_mem _ h)
      · rcases List.mem_cons.mp h with rfl | h
        · exact .inr List.mem_cons_self
        · exact (ih h).imp_right (List.mem_cons_of_mem _)

theorem GroupsInOrder.add (h : GroupsInOrder groups) (t : Transaction) :
    GroupsInOrder (addToGroups t groups) := by
  induction groups with
  | nil => exact List.pairwise_singleton _ _
  | cons first rest ih =>
    obtain ⟨name, group⟩ := first
    obtain ⟨before_rest, rest_inOrder⟩ := List.pairwise_cons.mp h
    simp only [addToGroups]
    split
    · next before =>
      refine List.pairwise_cons.mpr ⟨fun g hg => ?_, h⟩
      rcases List.mem_cons.mp hg with rfl | hg
      · exact before
      · exact userBefore_trans before (before_rest g hg)
    · next not_before =>
      split
      · exact List.pairwise_cons.mpr ⟨before_rest, rest_inOrder⟩
      · next other =>
        -- The user comes later, so the new group does as well.
        refine List.pairwise_cons.mpr ⟨fun g hg => ?_, ih rest_inOrder⟩
        rcases mem_addToGroups hg with here | there
        · rw [here]
          exact userBefore_of_ne (by simpa using not_before) other
        · exact before_rest g there

/-- Only the group of the user of a transaction changes. -/
theorem get?_addToGroups (h : GroupsInOrder groups) (t : Transaction) (user : Option String) :
    Assoc.get? user (addToGroups t groups) =
      if user = t.user then some (((Assoc.get? user groups).getD {}).add t)
      else Assoc.get? user groups := by
  induction groups with
  | nil =>
    by_cases hu : user = t.user
    · simp [addToGroups, Assoc.get?, hu]
    · simp [addToGroups, Assoc.get?, hu, Ne.symm hu]
  | cons first rest ih =>
    obtain ⟨name, group⟩ := first
    obtain ⟨before_rest, rest_inOrder⟩ := List.pairwise_cons.mp h
    simp only [addToGroups]
    split
    · next before =>
      by_cases hu : user = t.user
      · -- No later group can belong to the user.
        have missing : Assoc.get? user ((name, group) :: rest) = none := by
          rw [Assoc.get?_eq_none]
          intro hmem
          obtain ⟨g, hg, hname⟩ := List.mem_map.mp hmem
          have later : userBefore t.user g.1 = true := by
            rcases List.mem_cons.mp hg with rfl | hg
            · exact before
            · exact userBefore_trans before (before_rest g hg)
          exact ne_of_userBefore later (hu.symm.trans hname.symm)
        rw [if_pos hu, missing, hu]
        simp [Assoc.get?]
      · rw [if_neg hu, Assoc.get?, if_neg (Ne.symm hu)]
    · split
      · next same =>
        by_cases hu : user = t.user
        · have hname : name = user := same.symm.trans hu.symm
          rw [if_pos hu, Assoc.get?, if_pos hname, Assoc.get?, if_pos hname]
          rfl
        · have hname : name ≠ user := fun he => hu (he.symm.trans same.symm)
          rw [if_neg hu, Assoc.get?, if_neg hname, Assoc.get?, if_neg hname]
      · next other =>
        by_cases hname : name = user
        · have hu : user ≠ t.user := fun he => other (he.symm.trans hname.symm)
          rw [if_neg hu, Assoc.get?, if_pos hname, Assoc.get?, if_pos hname]
        · rw [Assoc.get?, if_neg hname, ih rest_inOrder, Assoc.get?, if_neg hname]

/-- Grouped transactions: every user has the group of their transactions, if there are any. -/
theorem groups_spec (ts : List Transaction) :
    GroupsInOrder (ts.foldl (fun groups t => addToGroups t groups) []) ∧
      ∀ user, Assoc.get? user (ts.foldl (fun groups t => addToGroups t groups) []) =
        if ts.filter (fun t => t.user = user) = [] then none
        else some ((ts.filter fun t => t.user = user).foldl Group.add {}) := by
  -- The last transaction is the last one to be added.
  induction ts using List.reverseRecOn with
  | nil => exact ⟨List.Pairwise.nil, fun user => rfl⟩
  | append_singleton ts t ih =>
    obtain ⟨inOrder, spec⟩ := ih
    rw [List.foldl_append, List.foldl_cons, List.foldl_nil]
    refine ⟨inOrder.add t, fun user => ?_⟩
    rw [get?_addToGroups inOrder, spec, List.filter_append]
    by_cases hu : user = t.user
    · subst hu
      by_cases first : ts.filter (fun x => x.user = t.user) = []
      · simp [first]
      · simp [first, List.foldl_append]
    · simp [hu, Ne.symm hu]

end Groups

/-! ## What a query selects -/

namespace Query

variable {q : Query} {ts : List Transaction} {user : Option String}

/-- The transactions of a user that pass the filters. -/
def keptOf (q : Query) (ts : List Transaction) (user : Option String) : List Transaction :=
  (ts.filter q.keeps).filter fun t => t.user = user

/-- Some transaction of the user passes the filters, and those that do pass the further tests
together. -/
def Selects (q : Query) (ts : List Transaction) (user : Option String) : Prop :=
  q.keptOf ts user ≠ [] ∧ q.keepsGroup ((q.keptOf ts user).foldl Group.add {}) = true

/-- A user has the group of the transactions that are kept, if there are any. -/
theorem mem_groups {g : Group} : (user, g) ∈ q.groups ts ↔
    q.keptOf ts user ≠ [] ∧ g = (q.keptOf ts user).foldl Group.add {} := by
  obtain ⟨inOrder, spec⟩ := groups_spec (ts.filter q.keeps)
  rw [groups, ← Assoc.get?_eq_some inOrder.nodup, spec]
  unfold keptOf
  split
  · next none_kept => simp [none_kept]
  · next some_kept =>
    rw [Option.some_inj]
    exact ⟨fun hg => ⟨some_kept, hg.symm⟩, fun hg => hg.2.symm⟩

/-- The rows of a query come in the order of their users, and no user has two of them. -/
theorem evaluate_inOrder (q : Query) (ts : List Transaction) :
    (q.evaluate ts).Pairwise fun a b => userBefore a.user b.user = true := by
  have inOrder := (groups_spec (ts.filter q.keeps)).1
  exact List.pairwise_map.mpr (inOrder.filter _)

/-- The users in the rows of a query are those that it selects. -/
theorem mem_users_evaluate : user ∈ (q.evaluate ts).users ↔ q.Selects ts user := by
  have users_iff : user ∈ (q.evaluate ts).users ↔
      ∃ g, (user, g) ∈ q.groups ts ∧ q.keepsGroup g = true := by
    simp only [Dataset.users, evaluate, List.map_map, List.mem_map, List.mem_filter]
    constructor
    · rintro ⟨⟨name, g⟩, ⟨hg, keeps⟩, rfl⟩
      exact ⟨g, hg, keeps⟩
    · rintro ⟨g, hg, keeps⟩
      exact ⟨(user, g), ⟨hg, keeps⟩, rfl⟩
  -- There is a group of the user just if something is kept of the user.
  rw [users_iff]
  constructor
  · rintro ⟨g, hg, keeps⟩
    obtain ⟨some_kept, rfl⟩ := mem_groups.mp hg
    exact ⟨some_kept, keeps⟩
  · rintro ⟨some_kept, keeps⟩
    exact ⟨_, mem_groups.mpr ⟨some_kept, rfl⟩, keeps⟩

theorem mem_keptOf {t : Transaction} :
    t ∈ q.keptOf ts user ↔ t ∈ ts ∧ q.keeps t = true ∧ t.user = user := by
  rw [keptOf, List.mem_filter, List.mem_filter, and_assoc, decide_eq_true_iff]

/-- Without tests on groups a query selects the users of the transactions that it keeps. -/
theorem selects_of_having_eq_nil (h : q.having = []) :
    q.Selects ts user ↔ ∃ t ∈ ts, q.keeps t = true ∧ t.user = user := by
  have kept_iff : q.keptOf ts user ≠ [] ↔ ∃ t, t ∈ q.keptOf ts user :=
    ⟨List.exists_mem_of_ne_nil _, fun ⟨t, ht⟩ => List.ne_nil_of_mem ht⟩
  simp only [Selects, keepsGroup, h, List.all_nil, and_true, kept_iff, mem_keptOf]

/-- A query without any tests selects whoever has a transaction. -/
theorem selects_of_isUnfiltered (h : q.isUnfiltered = true) :
    q.Selects ts user ↔ ∃ t ∈ ts, t.user = user := by
  simp only [isUnfiltered, Bool.and_eq_true, List.isEmpty_iff] at h
  rw [selects_of_having_eq_nil h.2]
  simp [keeps, h.1]

/-- Selected users have a transaction. -/
theorem Selects.exists_mem (h : q.Selects ts user) : ∃ t ∈ ts, t.user = user := by
  obtain ⟨t, ht⟩ := List.exists_mem_of_ne_nil _ h.1
  obtain ⟨ht, -, hu⟩ := mem_keptOf.mp ht
  exact ⟨t, ht, hu⟩

end Query

/-! ## Set operations -/

namespace Dataset

variable {d left right : Dataset} {ds : List Dataset} {user : Option String}

theorem mem_users_dropNull : user ∈ (dropNull d).users ↔ user ∈ d.users ∧ user.isSome = true := by
  simp only [users, dropNull, List.mem_map, List.mem_filter]
  constructor
  · rintro ⟨row, ⟨hrow, known⟩, rfl⟩
    exact ⟨⟨row, hrow, rfl⟩, known⟩
  · rintro ⟨⟨row, hrow, rfl⟩, known⟩
    exact ⟨row, ⟨hrow, known⟩, rfl⟩

theorem mem_users_firstRows (keep : Option String → Bool) (seen : List (Option String)) :
    user ∈ (firstRows keep seen d).users ↔
      user ∈ d.users ∧ keep user = true ∧ user ∉ seen := by
  induction d generalizing seen with
  | nil => simp [firstRows, users]
  | cons row rest ih =>
    have rest_iff := ih seen
    have later_iff := ih (row.user :: seen)
    unfold users at rest_iff later_iff ⊢
    simp only [firstRows, List.map_cons, List.mem_cons]
    split
    -- The user of the first row is taken, and counts as seen from now on.
    · next taken =>
      simp only [Bool.and_eq_true, Bool.not_eq_true', List.contains_eq_mem,
        decide_eq_false_iff_not] at taken
      rw [List.map_cons, List.mem_cons, later_iff]
      by_cases hu : user = row.user
      · simp [hu, taken]
      · simp [hu]
    · next dropped =>
      simp only [Bool.and_eq_true, Bool.not_eq_true', List.contains_eq_mem,
        decide_eq_false_iff_not, not_and, Decidable.not_not] at dropped
      rw [rest_iff]
      by_cases hu : user = row.user
      · subst hu
        constructor
        · exact fun h => ⟨.inl rfl, h.2⟩
        · exact fun h => absurd (dropped h.2.1) h.2.2
      · simp [hu]

theorem mem_users_intersect :
    user ∈ (intersect left right).users ↔ user ∈ left.users ∧ user ∈ right.users := by
  rw [intersect, mem_users_firstRows]
  simp

theorem mem_users_foldl_intersect :
    user ∈ (ds.foldl intersect d).users ↔ user ∈ d.users ∧ ∀ x ∈ ds, user ∈ x.users := by
  induction ds generalizing d with
  | nil => simp
  | cons first rest ih =>
    rw [List.foldl_cons, ih, mem_users_intersect, List.forall_mem_cons, and_assoc]

/-- The users in the intersection of datasets are in all of them. -/
theorem mem_users_combine {combined : Dataset} (h : combine .intersection ds = .ok combined) :
    user ∈ combined.users ↔ ∀ x ∈ ds, user ∈ x.users := by
  cases ds with
  | nil => cases h
  | cons first rest =>
    cases rest with
    | nil =>
      obtain rfl := Except.ok.inj h
      simp
    | cons second rest =>
      obtain rfl := Except.ok.inj h
      rw [List.forall_mem_cons]
      exact mem_users_foldl_intersect

end Dataset

end Cohort
