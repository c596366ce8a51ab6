import Mathlib.Data.List.Forall2
import Mathlib.Data.List.Nodup
import Cohort.Condition.Input
import Cohort.Proofs.Condition.Spelling

/-!
# The flat form of conditions

The older form of conditions has one member per filter. Most members become a condition on their
field with their value; some are there to be passed over, and keys that mean nothing are reported.
A member whose value is not of the type that its key asks for is lost: a kind of transaction that
is no text, and a choice of city tiers that is no list.

## Main definitions

* `ConditionInput.meanings` — what the keys stand for
* `ConditionInput.Means` — the condition that a member stands for
* `ConditionInput.SetAside`, `ConditionInput.Misplaced` — members that are passed over, on purpose
  and for the type of their values
* `ConditionInput.LosesNothing` — each member is accounted for

## Main results

* `ConditionInput.keys_ascending_of_read?` — the members are read with ascending keys
* `ConditionInput.normalize_flat_accounts` — what becomes of each member, and when nothing is lost
-/

namespace Cohort

/-! ## Members in the order of their keys -/

namespace Json

theorem mem_keys_putMember {key k : String} {value : Json} {members : List (String × Json)}
    (h : k ∈ (putMember key value members).map (·.1)) : k = key ∨ k ∈ members.map (·.1) := by
  induction members with
  | nil => exact .inl (List.mem_singleton.mp h)
  | cons m rest ih =>
    rw [putMember] at h
    split at h
    · exact List.mem_cons.mp h
    · split at h
      · exact (List.mem_cons.mp h).imp_right fun later => List.mem_cons_of_mem _ later
      · rcases List.mem_cons.mp h with rfl | h
        · exact .inr List.mem_cons_self
        · exact (ih h).imp_right fun later => List.mem_cons_of_mem _ later

theorem putMember_ascending (key : String) (value : Json) {members : List (String × Json)}
    (ascending : (members.map (·.1)).Pairwise (· < ·)) :
    ((putMember key value members).map (·.1)).Pairwise (· < ·) := by
  induction members with
  | nil => exact List.pairwise_singleton _ _
  | cons m rest ih =>
    obtain ⟨below, rest_ascending⟩ := List.pairwise_cons.mp ascending
    rw [putMember]
    split
    · next first =>
      refine List.pairwise_cons.mpr ⟨List.forall_mem_cons.mpr ⟨first, fun k hk => ?_⟩, ascending⟩
      exact String.lt_trans first (below k hk)
    · next not_first =>
      split
      · next same =>
        exact List.pairwise_cons.mpr ⟨same ▸ below, rest_ascending⟩
      · next other =>
        refine List.pairwise_cons.mpr ⟨fun k hk => ?_, ih rest_ascending⟩
        rcases mem_keys_putMember hk with rfl | hk
        · exact Std.lt_of_le_of_ne (Std.not_lt.mp not_first) (Ne.symm other)
        · exact below k hk

theorem ofMembers_ascending (members : List (String × Json)) :
    ((ofMembers members).map (·.1)).Pairwise (· < ·) := by
  suffices ∀ sorted : List (String × Json), (sorted.map (·.1)).Pairwise (· < ·) →
      ((members.foldl (fun sorted m => putMember m.1 m.2 sorted) sorted).map (·.1)).Pairwise
        (· < ·) from this [] List.Pairwise.nil
  induction members with
  | nil => exact fun sorted ascending => ascending
  | cons m rest ih => exact fun sorted ascending => ih _ (putMember_ascending m.1 m.2 ascending)

end Json

namespace ConditionInput

/-- The members of the flat form that is read from an object have ascending keys. -/
theorem keys_ascending_of_read? {j : Json} {members : List (String × Json)}
    (h : read? j = some (.flat members)) : (members.map (·.1)).Pairwise (· < ·) := by
  cases j with
  | object fields =>
    cases h
    exact Json.ofMembers_ascending _
  | list items =>
    obtain ⟨conditions, -, other⟩ := Option.map_eq_some_iff.mp h
    cases other
  | _ => cases h

/-! ## What members stand for -/

/-- What the keys stand for: a comparison of a field with the value. Amounts are compared with
equality unless the member for their operator tells otherwise. -/
def meanings : List (String × Field × Operator) :=
  [("start_date", .transactionDate, .ge), ("end_date", .transactionDate, .le),
    ("amount", .amount, .eq), ("city_tier", .cityTier, .eq), ("city_tier_in", .cityTier, .isIn),
    ("transaction_type", .transactionType, .eq), ("min_transactions", .transactionCount, .ge),
    ("total_spend_gt", .totalSpend, .gt), ("total_spend_lt", .totalSpend, .lt),
    ("transaction_count_gt", .transactionCount, .gt),
    ("transaction_count_lt", .transactionCount, .lt)]

/-- The key stands for a comparison, or for how amounts are compared. -/
def IsUnderstood (key : String) : Prop :=
  key = "amount_operator" ∨ ∃ field operator, (key, field, operator) ∈ meanings

/-- The value that a filter compares with. Kinds of transactions are compared in capitals. -/
def comparedValue (key : String) (value : Json) : Json :=
  match value with
  | .text s => .text (if key = "transaction_type" then Text.upper s else s)
  | _ => value

/-- The condition compares the field that the member is about with the value of the member.
`amountOperator` is the text given for comparing amounts. -/
def Means (amountOperator : String) (m : String × Json) (c : Condition) : Prop :=
  ∃ field operator, (m.1, field, operator) ∈ meanings ∧
    c = .of field.name (if m.1 = "amount" then amountOperator else operator.symbol)
      (comparedValue m.1 m.2)

/-- Members that are no filters of their own: the operator for amounts, transactions of all kinds,
and a choice of no tiers. -/
inductive SetAside : String × Json → Prop where
  | operator (value : Json) : SetAside ("amount_operator", value)
  | allKinds {kind : String} (all : Text.sameLetters kind "all" = true) :
      SetAside ("transaction_type", .text kind)
  | noTiers : SetAside ("city_tier_in", .list [])

/-- Filters with a value of a type that their key does not ask for. -/
inductive Misplaced : String × Json → Prop where
  | kind {value : Json} (given : value ≠ .null) (no_text : ∀ kind, value ≠ .text kind) :
      Misplaced ("transaction_type", value)
  | tiers {value : Json} (given : value ≠ .null) (no_list : ∀ items, value ≠ .list items) :
      Misplaced ("city_tier_in", value)

variable {operator : String} {key : String} {value : Json} {m : String × Json} {c : Condition}
  {members : List (String × Json)}

/-! ## What members contribute -/

theorem contribution_null (operator key : String) : contribution operator key .null = .nothing :=
  if_pos rfl

theorem contribution_of_setAside (operator : String) (h : SetAside m) :
    contribution operator m.1 m.2 = .nothing := by
  cases h with
  | operator value => simp [contribution]
  | allKinds all => simp [contribution, all]
  | noTiers => simp [contribution]

theorem contribution_of_misplaced (operator : String) (h : Misplaced m) :
    contribution operator m.1 m.2 = .nothing := by
  cases h with
  | @kind value given no_text =>
    cases value with
    | text kind => exact absurd rfl (no_text kind)
    | _ => simp [contribution]
  | @tiers value given no_list =>
    cases value with
    | list items => exact absurd rfl (no_list items)
    | _ => simp [contribution]

theorem contribution_eq_unknown :
    contribution operator key value = .unknown ↔ value ≠ .null ∧ ¬ IsUnderstood key := by
  fun_cases contribution operator key value <;> simp_all [onField, IsUnderstood, meanings]

/-- A filter is contributed as the condition that it stands for. -/
theorem contribution_of_means (given : m.2 ≠ .null) (asked : ¬ SetAside m)
    (placed : ¬ Misplaced m) (h : Means operator m c) :
    contribution operator m.1 m.2 = .condition c := by
  obtain ⟨key, value⟩ := m
  obtain ⟨field, compared, listed, rfl⟩ := h
  by_cases tiers : key = "city_tier_in"
  · subst tiers
    cases value with
    | list items =>
      cases items with
      | nil => exact absurd SetAside.noTiers asked
      | cons item rest => simp_all [contribution, onField, meanings, comparedValue]
    | _ => exact absurd (Misplaced.tiers given fun items same => by cases same) placed
  by_cases kind : key = "transaction_type"
  · subst kind
    cases value with
    | text kind =>
      have other : ¬ Text.sameLetters kind "all" = true := fun all => asked (.allKinds all)
      simp_all [contribution, onField, meanings, comparedValue]
    | _ => exact absurd (Misplaced.kind given fun kind same => by cases same) placed
  have as_given : comparedValue key value = value := by
    cases value with
    | text s => rw [comparedValue, if_neg kind]
    | _ => rfl
  simp only [meanings, List.mem_cons, Prod.mk.injEq, List.not_mem_nil, or_false] at listed
  rw [as_given]
  rcases listed with h | h | h | h | h | h | h | h | h | h | h <;> obtain ⟨rfl, rfl, rfl⟩ := h <;>
    simp_all [contribution, onField]

theorem Means.understood (h : Means operator m c) : IsUnderstood m.1 := by
  obtain ⟨field, compared, listed, -⟩ := h
  exact .inr ⟨field, compared, listed⟩

theorem exists_means (understood : IsUnderstood m.1) (asked : ¬ SetAside m) :
    ∃ c, Means operator m c := by
  rcases understood with is_operator | ⟨field, compared, listed⟩
  · obtain ⟨key, value⟩ := m
    obtain rfl : key = "amount_operator" := is_operator
    exact absurd (SetAside.operator value) asked
  · exact ⟨_, field, compared, listed, rfl⟩

/-- The members that contribute a condition are the filters that are neither passed over nor
misplaced. -/
theorem contribution_eq_condition : contribution operator m.1 m.2 = .condition c ↔
    (m.2 ≠ .null ∧ ¬ SetAside m ∧ ¬ Misplaced m) ∧ Means operator m c := by
  refine ⟨fun contributed => ?_, fun ⟨⟨given, asked, placed⟩, means⟩ =>
    contribution_of_means given asked placed means⟩
  have given : m.2 ≠ .null := by
    intro missing
    rw [missing, contribution_null] at contributed
    cases contributed
  have asked : ¬ SetAside m := by
    intro aside
    rw [contribution_of_setAside operator aside] at contributed
    cases contributed
  have placed : ¬ Misplaced m := by
    intro misplaced
    rw [contribution_of_misplaced operator misplaced] at contributed
    cases contributed
  have understood : IsUnderstood m.1 := by
    by_contra unknown
    rw [contribution_eq_unknown.mpr ⟨given, unknown⟩] at contributed
    cases contributed
  obtain ⟨c', means⟩ : ∃ c', Means operator m c' := exists_means understood asked
  rw [contribution_of_means given asked placed means] at contributed
  exact ⟨⟨given, asked, placed⟩, Contribution.condition.inj contributed ▸ means⟩

/-- A condition tells the key of the member that it stands for. -/
theorem Means.key_unique {m' : String × Json} (h : Means operator m c)
    (h' : Means operator m' c) : m.1 = m'.1 := by
  -- No two keys stand for one comparison, and no other key is about amounts.
  have distinct : ∀ a ∈ meanings, ∀ b ∈ meanings, a.2.1 = b.2.1 →
      (a.1 = "amount" ∨ b.1 = "amount" ∨ a.2.2 = b.2.2) → a.1 = b.1 := by decide
  obtain ⟨field, compared, listed, rfl⟩ := h
  obtain ⟨field', compared', listed', same⟩ := h'
  simp only [Condition.of, Condition.mk.injEq, Option.some_inj] at same
  obtain ⟨same_name, same_operator, -⟩ := same
  have same_field : field = field' := by
    cases field <;> cases field' <;> first | rfl | exact absurd same_name (by decide)
  refine distinct _ listed _ listed' same_field ?_
  by_cases amount : m.1 = "amount"
  · exact .inl amount
  by_cases amount' : m'.1 = "amount"
  · exact .inr (.inl amount')
  · rw [if_neg amount, if_neg amount'] at same_operator
    have parsed := congrArg Operator.parse? same_operator
    rw [Operator.parse?_symbol, Operator.parse?_symbol] at parsed
    exact .inr (.inr (Option.some_inj.mp parsed))

/-- Conditions tell the keys of the members that they stand for. -/
theorem keys_eq_of_means {ms ms' : List (String × Json)} {cs : List Condition}
    (h : List.Forall₂ (Means operator) ms cs) (h' : List.Forall₂ (Means operator) ms' cs) :
    ms.map (·.1) = ms'.map (·.1) := by
  have unique : Relator.LeftUnique fun (key : String) c =>
      ∃ m : String × Json, m.1 = key ∧ Means operator m c := by
    rintro _ _ c ⟨m, rfl, means⟩ ⟨m', rfl, means'⟩
    exact means.key_unique means'
  apply List.left_unique_forall₂' unique
  · exact List.forall₂_map_left_iff.mpr (h.imp fun m c means => ⟨m, rfl, means⟩)
  · exact List.forall₂_map_left_iff.mpr (h'.imp fun m c means => ⟨m, rfl, means⟩)

/-! ## Lists of members -/

/-- Where elements of a list are mapped to something, the results stand in the order of these
elements. -/
theorem exists_sublist_filterMap {α β : Type} (f : α → Option β) (l : List α) :
    ∃ kept : List α, kept.Sublist l ∧ List.Forall₂ (fun a b => f a = some b) kept (l.filterMap f) ∧
      ∀ a, a ∈ kept ↔ a ∈ l ∧ ∃ b, f a = some b := by
  induction l with
  | nil => exact ⟨[], .slnil, .nil, by simp⟩
  | cons a rest ih =>
    obtain ⟨kept, sublist, aligned, mem⟩ := ih
    cases result : f a with
    | none =>
      refine ⟨kept, sublist.cons a, by rwa [List.filterMap_cons_none result], fun x => ?_⟩
      rw [mem, List.mem_cons]
      constructor
      · exact fun ⟨listed, some_result⟩ => ⟨.inr listed, some_result⟩
      · rintro ⟨rfl | listed, b, some_result⟩
        · rw [result] at some_result
          cases some_result
        · exact ⟨listed, b, some_result⟩
    | some b =>
      refine ⟨a :: kept, sublist.cons_cons a, ?_, fun x => ?_⟩
      · rw [List.filterMap_cons_some result]
        exact .cons result aligned
      · rw [List.mem_cons, mem, List.mem_cons]
        constructor
        · rintro (rfl | ⟨listed, some_result⟩)
          · exact ⟨.inl rfl, b, result⟩
          · exact ⟨.inr listed, some_result⟩
        · rintro ⟨rfl | listed, some_result⟩
          · exact .inl rfl
          · exact .inr ⟨listed, some_result⟩

/-- The members whose keys are reported are those with keys that mean nothing, in their order. -/
theorem exists_ignored (members : List (String × Json)) :
    ∃ ignored : List (String × Json), ignored.Sublist members ∧
      (normalize (.flat members)).ignoredKeys = ignored.map (·.1) ∧
      ∀ m, m ∈ ignored ↔ m ∈ members ∧ m.2 ≠ .null ∧ ¬ IsUnderstood m.1 := by
  obtain ⟨reported, keys, spec⟩ : ∃ reported : String × Json → Option String,
      (normalize (.flat members)).ignoredKeys = members.filterMap reported ∧
      ∀ m key, reported m = some key ↔ key = m.1 ∧ m.2 ≠ .null ∧ ¬ IsUnderstood m.1 := by
    refine ⟨_, rfl, fun m key => ?_⟩
    have unknown : contribution (amountOperator members) m.1 m.2 = .unknown ↔ _ :=
      contribution_eq_unknown
    rw [← unknown]
    cases contribution (amountOperator members) m.1 m.2 <;> simp [eq_comm]
  obtain ⟨ignored, sublist, aligned, mem⟩ := exists_sublist_filterMap reported members
  refine ⟨ignored, sublist, ?_, fun m => ?_⟩
  · have same : List.Forall₂ (fun (m : String × Json) key => m.1 = key) ignored
        (members.filterMap reported) :=
      aligned.imp fun m key h => ((spec m key).mp h).1.symm
    rw [← List.forall₂_map_left_iff, List.forall₂_eq_eq_eq] at same
    rw [keys, same]
  · simp only [mem, spec, exists_eq_left]

/-- The conditions are those of the members that are filters, in the order of their keys. -/
theorem exists_contributing (members : List (String × Json)) :
    ∃ contributing : List (String × Json), contributing.Sublist members ∧
      List.Forall₂ (Means (amountOperator members)) contributing
        (normalize (.flat members)).conditions ∧
      ∀ m, m ∈ contributing ↔
        m ∈ members ∧ m.2 ≠ .null ∧ IsUnderstood m.1 ∧ ¬ SetAside m ∧ ¬ Misplaced m := by
  obtain ⟨contributed, conditions, spec⟩ : ∃ contributed : String × Json → Option Condition,
      (normalize (.flat members)).conditions = members.filterMap contributed ∧
      ∀ m c, contributed m = some c ↔
        (m.2 ≠ .null ∧ ¬ SetAside m ∧ ¬ Misplaced m) ∧ Means (amountOperator members) m c := by
    refine ⟨_, rfl, fun m c => ?_⟩
    rw [← contribution_eq_condition]
    cases contribution (amountOperator members) m.1 m.2 <;> simp
  obtain ⟨contributing, sublist, aligned, mem⟩ := exists_sublist_filterMap contributed members
  rw [conditions]
  refine ⟨contributing, sublist, aligned.imp fun m c h => ((spec m c).mp h).2, fun m => ?_⟩
  simp only [mem, spec]
  constructor
  · rintro ⟨listed, c, ⟨given, asked, placed⟩, means⟩
    exact ⟨listed, given, means.understood, asked, placed⟩
  · rintro ⟨listed, given, understood, asked, placed⟩
    obtain ⟨c, means⟩ := exists_means understood asked
    exact ⟨listed, c, ⟨given, asked, placed⟩, means⟩

/-! ## Accounts of all members -/

/-- Each member with a value is accounted for: it contributes a condition that compares its field
with its value, or its key is reported, or it is to be passed over. Nothing else contributes a
condition, and conditions and reported keys are in the order of the members. -/
def LosesNothing (members : List (String × Json)) : Prop :=
  ∃ contributing : List (String × Json), contributing.Sublist members ∧
    List.Forall₂ (Means (amountOperator members)) contributing
      (normalize (.flat members)).conditions ∧
    (normalize (.flat members)).ignoredKeys.Sublist (members.map (·.1)) ∧
    ∀ m ∈ members, m.2 ≠ .null →
      m ∈ contributing ∨ m.1 ∈ (normalize (.flat members)).ignoredKeys ∨ SetAside m

theorem not_setAside_of_misplaced (h : Misplaced m) : ¬ SetAside m := by
  obtain ⟨key, value⟩ := m
  intro aside
  generalize same : (key, value) = m at aside
  cases h with
  | kind given no_text =>
    cases aside with
    | allKinds => exact no_text _ (Prod.mk.inj same).2
    | _ => exact absurd (Prod.mk.inj same).1 (by decide)
  | tiers given no_list =>
    cases aside with
    | noTiers => exact no_list _ (Prod.mk.inj same).2
    | _ => exact absurd (Prod.mk.inj same).1 (by decide)

theorem Misplaced.given (h : Misplaced m) : m.2 ≠ .null := by
  cases h with
  | kind given => exact given
  | tiers given => exact given

theorem Misplaced.understood (h : Misplaced m) : IsUnderstood m.1 := by
  cases h with
  | kind => exact .inr ⟨.transactionType, .eq, by simp [meanings]⟩
  | tiers => exact .inr ⟨.cityTier, .isIn, by simp [meanings]⟩

/-- Members with distinct keys are accounted for if and only if none of them is misplaced. -/
theorem losesNothing_iff (distinct : (members.map (·.1)).Nodup) :
    LosesNothing members ↔ ∀ m ∈ members, ¬ Misplaced m := by
  obtain ⟨contributing, sublist, aligned, mem⟩ := exists_contributing members
  obtain ⟨ignored, ignored_sublist, ignored_keys, mem_ignored⟩ := exists_ignored members
  constructor
  · rintro ⟨contributing', sublist', aligned', -, accounted⟩ m listed misplaced
    rcases accounted m listed misplaced.given with contributes | reported | aside
    · -- The conditions tell the keys, so that a member with its key contributes one: itself.
      have contributed := List.mem_map_of_mem (f := (·.1)) contributes
      rw [← keys_eq_of_means aligned aligned'] at contributed
      obtain ⟨m', contributes', same_key⟩ := List.mem_map.mp contributed
      obtain ⟨listed', -, -, -, placed⟩ := (mem m').mp contributes'
      obtain rfl : m' = m := List.inj_on_of_nodup_map distinct listed' listed same_key
      exact placed misplaced
    · rw [ignored_keys] at reported
      obtain ⟨m', ignores, same⟩ := List.mem_map.mp reported
      exact ((mem_ignored m').mp ignores).2.2 (same ▸ misplaced.understood)
    · exact not_setAside_of_misplaced misplaced aside
  · intro placed
    refine ⟨contributing, sublist, aligned, ignored_keys ▸ ignored_sublist.map _, ?_⟩
    intro m listed given
    by_cases understood : IsUnderstood m.1
    · by_cases aside : SetAside m
      · exact .inr (.inr aside)
      · exact .inl ((mem m).mpr ⟨listed, given, understood, aside, placed m listed⟩)
    · refine .inr (.inl ?_)
      rw [ignored_keys]
      exact List.mem_map_of_mem ((mem_ignored m).mpr ⟨listed, given, understood⟩)

/-- The conditions of the flat form are those that its filters stand for, in the order of their
keys, and the keys that are reported are the ones without a meaning, in this order. Filters are the
members with a value and a meaning that are neither passed over nor misplaced. So nothing is lost
but what is misplaced. -/
theorem normalize_flat_accounts (ascending : (members.map (·.1)).Pairwise (· < ·)) :
    (∃ contributing : List (String × Json), contributing.Sublist members ∧
      List.Forall₂ (Means (amountOperator members)) contributing
        (normalize (.flat members)).conditions ∧
      ∀ m, m ∈ contributing ↔
        m ∈ members ∧ m.2 ≠ .null ∧ IsUnderstood m.1 ∧ ¬ SetAside m ∧ ¬ Misplaced m) ∧
    (normalize (.flat members)).ignoredKeys.Pairwise (· < ·) ∧
    (∀ key, key ∈ (normalize (.flat members)).ignoredKeys ↔
      ∃ value, (key, value) ∈ members ∧ value ≠ .null ∧ ¬ IsUnderstood key) ∧
    (LosesNothing members ↔ ∀ m ∈ members, ¬ Misplaced m) := by
  obtain ⟨ignored, ignored_sublist, ignored_keys, mem_ignored⟩ := exists_ignored members
  refine ⟨exists_contributing members, ?_, fun key => ?_,
    losesNothing_iff (ascending.imp Std.ne_of_lt)⟩
  · rw [ignored_keys]
    exact ascending.sublist (ignored_sublist.map _)
  · rw [ignored_keys, List.mem_map]
    constructor
    · rintro ⟨m, ignores, rfl⟩
      exact ⟨m.2, (mem_ignored m).mp ignores⟩
    · rintro ⟨value, listed⟩
      exact ⟨(key, value), (mem_ignored _).mpr listed, rfl⟩

private def purchases : List (String × Json) :=
  [("amount", .int 500), ("amount_operator", .text ">="), ("city_tier_in", .list []),
    ("timeframe_days", .int 30), ("transaction_type", .text "upi")]

theorem normalize_flat_accounts_purchases : LosesNothing purchases := by
  refine (normalize_flat_accounts (by decide)).2.2.2.mpr fun m listed misplaced => ?_
  generalize same : m = m' at misplaced
  cases misplaced with
  | kind given no_text => simp_all [purchases]
  | tiers given no_list => simp_all [purchases]

/-- A kind of transaction that is a number, and a single city tier in place of a list of them,
leave neither a condition nor a key behind. -/
theorem not_losesNothing_of_numbers :
    (normalize (.flat [("transaction_type", .int 5)]) = ⟨[], []⟩ ∧
      ¬ LosesNothing [("transaction_type", .int 5)]) ∧
    (normalize (.flat [("city_tier_in", .int 1)]) = ⟨[], []⟩ ∧
      ¬ LosesNothing [("city_tier_in", .int 1)]) := by
  have number : ∀ i : Int, Json.int i ≠ .null ∧ (∀ kind, Json.int i ≠ .text kind) ∧
      ∀ items, Json.int i ≠ .list items := fun i => ⟨nofun, nofun, nofun⟩
  refine ⟨⟨rfl, fun kept => ?_⟩, rfl, fun kept => ?_⟩
  · exact (losesNothing_iff (by decide)).mp kept _ (List.mem_singleton_self _)
      (.kind (number 5).1 (number 5).2.1)
  · exact (losesNothing_iff (by decide)).mp kept _ (List.mem_singleton_self _)
      (.tiers (number 1).1 (number 1).2.2)

end ConditionInput

end Cohort
