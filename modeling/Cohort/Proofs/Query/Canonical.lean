import Cohort.Proofs.Query.Compilation
import Cohort.Proofs.Text.Ascending

/-!
# One query for one set of tests

A query lists its tests in the order of their texts, and each text once. So it does not matter in
which order the conditions were given, how often one of them was repeated, or in which of several
spellings it came: the texts of the accepted conditions alone determine the text of the query.

## Main definitions

* `Condition.RendersAs` — the condition is accepted as a test with this text
* `View.select` — the SQL text for the texts of the tests
* `Query.Lists` — the query has the tests of these conditions, in order and once each
* `Query.SameTexts` — the queries cannot be told apart by what is written in them

## Main results

* `ascending_canonical` — the tests of a query are in strictly ascending order
* `compile_lists` — a compiled query has the tests of the accepted conditions
* `compile_canonical` — and so it depends on nothing but their texts
-/

namespace Cohort

variable {cs xs ys : List Condition} {c : Condition} {kind kind' : FieldKind} {text : String}
  {ps : List Predicate} {view : View} {q q' : Query}

/-! ## The order of tests -/

/-- The tests of a query are in strictly ascending order. -/
theorem ascending_canonical (ps : List Predicate) :
    ((canonical ps).map Predicate.render).Pairwise (· < ·) :=
  Text.pairwise_texts Predicate.render ps

/-! ## The texts of tests -/

/-- The condition is accepted as a test of a field of this kind, with this text. -/
def Condition.RendersAs (kind : FieldKind) (text : String) (c : Condition) : Prop :=
  ∃ p, c.accept = .ok p ∧ p.field.kind = kind ∧ p.render = text

/-- The text of a test shows of which kind its field is. -/
theorem Condition.RendersAs.kind_eq {c' : Condition} (h : c.RendersAs kind text)
    (h' : c'.RendersAs kind' text) : kind = kind' := by
  obtain ⟨p, hp, rfl, rfl⟩ := h
  obtain ⟨p', hp', rfl, same⟩ := h'
  rw [(alike_of_render_eq hp hp' same.symm).field]

/-- The tests that stay have the texts of the accepted conditions. -/
theorem mem_texts_canonical :
    text ∈ (canonical ((acceptedOf cs).filter fun p => p.field.kind == kind)).map
      Predicate.render ↔ ∃ c ∈ cs, c.RendersAs kind text := by
  obtain ⟨only, covered⟩ := canonical_spec ((acceptedOf cs).filter fun p => p.field.kind == kind)
  rw [List.mem_map]
  constructor
  · rintro ⟨p, hp, rfl⟩
    obtain ⟨accepted, hkind⟩ := List.mem_filter.mp (only p hp)
    obtain ⟨c, hc, hp⟩ := mem_acceptedOf.mp accepted
    exact ⟨c, hc, p, hp, by simpa using hkind, rfl⟩
  · rintro ⟨c, hc, p, hp, hkind, rfl⟩
    apply covered p
    exact List.mem_filter.mpr ⟨mem_acceptedOf.mpr ⟨c, hc, hp⟩, by simpa using hkind⟩

/-! ## The text of a query -/

/-- The tests on transactions. Where there are none, all transactions pass. -/
def whereText : List String → String
  | [] => "1=1"
  | texts => " AND ".intercalate texts

/-- The tests on groups, if there are any. -/
def havingText : List String → String
  | [] => ""
  | texts => " HAVING " ++ " AND ".intercalate texts

/-- The SQL text that selects the users who pass the tests with these texts. -/
def View.select (v : View) (filters having : List String) : String :=
  "WITH all_transactions AS (" ++ v.text ++
    "), filtered_transactions AS (SELECT * FROM all_transactions WHERE " ++ whereText filters ++
    ") SELECT user_id, COUNT(*) AS total_transactions, SUM(amount) AS total_spent, " ++
    "GROUP_CONCAT(DISTINCT transaction_type) AS transaction_types " ++
    "FROM filtered_transactions GROUP BY user_id" ++ havingText having

/-- The tests of the query have the texts of the accepted conditions, each of them once and in
ascending order, and these texts make up the text of the query. -/
structure Query.Lists (view : View) (cs : List Condition) (q : Query) : Prop where
  filters_ascending : (q.filters.map Predicate.render).Pairwise (· < ·)
  having_ascending : (q.having.map Predicate.render).Pairwise (· < ·)
  mem_filters : ∀ text, text ∈ q.filters.map Predicate.render ↔ ∃ c ∈ cs, c.RendersAs .raw text
  mem_having : ∀ text,
    text ∈ q.having.map Predicate.render ↔ ∃ c ∈ cs, c.RendersAs .aggregate text
  sql : q.sql = view.select (q.filters.map Predicate.render) (q.having.map Predicate.render)

/-- The queries have the same text, and tests with the same texts. -/
structure Query.SameTexts (q q' : Query) : Prop where
  sql : q.sql = q'.sql
  filters : q.filters.map Predicate.render = q'.filters.map Predicate.render
  having : q.having.map Predicate.render = q'.having.map Predicate.render

theorem View.sql_eq_select (v : View) (filters having : List Predicate) :
    v.sql filters having =
      v.select (filters.map Predicate.render) (having.map Predicate.render) := by
  cases filters <;> cases having <;> rfl

/-- A compiled query has the tests of the accepted conditions. -/
theorem compile_lists (view : View) (cs : List Condition) :
    Query.Lists view cs (view.compile cs).query where
  filters_ascending := ascending_canonical _
  having_ascending := ascending_canonical _
  mem_filters _ := mem_texts_canonical
  mem_having _ := mem_texts_canonical
  sql := view.sql_eq_select _ _

/-- What a query lists determines what is written in it. -/
theorem Query.Lists.sameTexts (h : q.Lists view xs) (h' : q'.Lists view ys)
    (same : ∀ kind text,
      (∃ c ∈ xs, c.RendersAs kind text) ↔ ∃ c ∈ ys, c.RendersAs kind text) : q.SameTexts q' := by
  have filters : q.filters.map Predicate.render = q'.filters.map Predicate.render := by
    apply h.filters_ascending.eq_of_mem_iff h'.filters_ascending
    intro text
    rw [h.mem_filters, same, h'.mem_filters]
  have having : q.having.map Predicate.render = q'.having.map Predicate.render := by
    apply h.having_ascending.eq_of_mem_iff h'.having_ascending
    intro text
    rw [h.mem_having, same, h'.mem_having]
  exact ⟨by rw [h.sql, h'.sql, filters, having], filters, having⟩

/-- A compiled query lists the texts of the accepted conditions. Conditions that are accepted with
the same texts have the same query, and so have conditions that differ only in their order and in
how often they are repeated. -/
theorem compile_canonical (view : View) :
    (∀ cs, Query.Lists view cs (view.compile cs).query) ∧
    (∀ xs ys : List Condition,
      (∀ text, (∃ c ∈ xs, ∃ kind, c.RendersAs kind text) ↔
        ∃ c ∈ ys, ∃ kind, c.RendersAs kind text) →
      (view.compile xs).query.SameTexts (view.compile ys).query) ∧
    ∀ xs ys : List Condition, (∀ c, c ∈ xs ↔ c ∈ ys) →
      (view.compile xs).query.SameTexts (view.compile ys).query := by
  -- A text belongs to one kind of fields only.
  have one_way : ∀ xs ys : List Condition,
      (∀ text, (∃ c ∈ xs, ∃ kind, c.RendersAs kind text) →
        ∃ c ∈ ys, ∃ kind, c.RendersAs kind text) →
      ∀ kind text, (∃ c ∈ xs, c.RendersAs kind text) → ∃ c ∈ ys, c.RendersAs kind text := by
    rintro xs ys listed kind text ⟨c, hc, renders⟩
    obtain ⟨c', hc', kind', renders'⟩ := listed text ⟨c, hc, kind, renders⟩
    exact ⟨c', hc', renders.kind_eq renders' ▸ renders'⟩
  refine ⟨compile_lists view, fun xs ys same => ?_, fun xs ys same => ?_⟩
  · apply (compile_lists view xs).sameTexts (compile_lists view ys)
    intro kind text
    exact ⟨one_way xs ys (fun text => (same text).mp) kind text,
      one_way ys xs (fun text => (same text).mpr) kind text⟩
  · apply (compile_lists view xs).sameTexts (compile_lists view ys)
    intro kind text
    simp only [same]

theorem exists_rendersAs : (∃ c ∈ cs, ∃ kind, c.RendersAs kind text) ↔
    text ∈ (acceptedOf cs).map Predicate.render := by
  rw [List.mem_map]
  constructor
  · rintro ⟨c, hc, kind, p, hp, -, rfl⟩
    exact ⟨p, mem_acceptedOf.mpr ⟨c, hc, hp⟩, rfl⟩
  · rintro ⟨p, hp, rfl⟩
    obtain ⟨c, hc, hp⟩ := mem_acceptedOf.mp hp
    exact ⟨c, hc, p.field.kind, p, hp, rfl, rfl⟩

private def bigSpenders : List Condition :=
  [.of "amount" ">=" (.int 100), .of "total_spend" ">" (.int 5000), .of "city_tier" "=" (.int 1)]

/-- The same tests in other spellings and in another order, with a condition that is dropped. -/
private def bigSpendersAgain : List Condition :=
  [.of "city_tier" " == " (.text "1.0"), .of "mood" "=" (.int 1),
    .of "TOTAL_SPEND" ">" (.float 5000.0), .of "amount" ">=" (.int 100),
    .of "Amount" ">=" (.text "1e2")]

theorem compile_canonical_respelled :
    (View.standard.compile bigSpenders).query.SameTexts
        (View.standard.compile bigSpendersAgain).query ∧
      (View.standard.compile bigSpenders).query.SameTexts
        (View.standard.compile (bigSpenders.reverse ++ bigSpenders)).query ∧
      (View.standard.compile bigSpenders).query.filters.map Predicate.render =
        ["amount >= 100", "city_tier = 1"] := by
  obtain ⟨-, same_tests, same_conditions⟩ := compile_canonical View.standard
  have texts : (acceptedOf bigSpenders).map Predicate.render =
      ["amount >= 100", "SUM(amount) > 5000", "city_tier = 1"] := by decide +kernel
  have texts_again : (acceptedOf bigSpendersAgain).map Predicate.render =
      ["city_tier = 1", "SUM(amount) > 5000", "amount >= 100", "amount >= 100"] := by
    decide +kernel
  refine ⟨same_tests _ _ fun text => ?_, same_conditions _ _ fun c => ?_, by decide +kernel⟩
  · rw [exists_rendersAs, exists_rendersAs, texts, texts_again]
    simp only [List.mem_cons, List.not_mem_nil, or_false]
    tauto
  · simp

end Cohort
