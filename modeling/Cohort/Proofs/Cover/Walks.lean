import Mathlib.Data.List.Perm.Subperm
import Cohort.Proofs.Cover.Presentation

/-!
# The search for what makes a rule unusable

An intersection narrows to its declared conditions if all of its operands do, so whether a rule
can be used is found by a search through the rules below it. The dependencies may lead back to a
rule that is still being visited, lead to one rule on several ways, or name rules that are not
there.

## Main definitions

* `Rule.Searched` — the search as it takes place, with nothing that bounds its depth
* `Rule.Walk` — a way along listed dependencies, each step of which leaves an intersection
* `Rule.Breaks` — a way that ends in a union, a difference, or a rule that is being visited

## Main results

* `Rule.checkReusable_snd` — after a check, the same rules are being visited as before it
* `Rule.allOperands_eq` — so operands are checked independently of one another
* `Rule.searched_checkReusable` — the search comes to an end among distinct rules
* `Rule.isReusable_decides_walks` — a rule is usable unless there is a way that breaks it
-/

namespace Cohort.Rule

variable {rules : List Rule} {rule : Rule} {visiting : List RuleId}

/-! ## Operands -/

/-- If each check leaves no mark, then so do all of them, and operands pass if each of them passes
with the rules being visited that were visited at first. -/
theorem allOperands_eq {check : Rule → List RuleId → Bool × List RuleId}
    (restores : ∀ operand visiting, (check operand visiting).2 = visiting) (ids : List RuleId)
    (visiting : List RuleId) :
    allOperands check rules ids visiting =
      (ids.all fun id => (lookup? rules id).all fun operand => (check operand visiting).1,
        visiting) := by
  induction ids with
  | nil => rfl
  | cons id rest ih =>
    rw [allOperands, List.all_cons]
    cases lookup? rules id with
    | none => exact ih
    | some operand =>
      have same := restores operand visiting
      dsimp only [Option.all_some]
      split
      · next after passed =>
        rw [passed] at same ⊢
        obtain rfl := same
        exact ih
      · next after failed =>
        rw [failed] at same ⊢
        obtain rfl := same
        rfl

/-- A check leaves no mark, whatever it finds and however deep it may go. -/
theorem checkReusable_snd (rules : List Rule) (depth : Nat) (rule : Rule)
    (visiting : List RuleId) : (checkReusable rules depth rule visiting).2 = visiting := by
  induction depth generalizing rule visiting with
  | zero => rfl
  | succ depth ih =>
    rw [checkReusable]
    split
    · rfl
    · rfl
    · rfl
    · split
      · rfl
      · dsimp only
        rw [allOperands_eq ih, List.erase_cons_head]

/-! ## The search -/

/-- What is checked: a rule, or operands one after the other. -/
inductive Subject
  | rule (rule : Rule)
  | operands (ids : List RuleId)

/-- The course of a check: the rules that are being visited, and what is found together with the
rules that are being visited afterwards. A check of operands ends with the first that fails. -/
inductive Searched (rules : List Rule) : Subject → List RuleId → Bool × List RuleId → Prop
  | plain {rule : Rule} {visiting : List RuleId} (untied : rule.operation = none) :
      Searched rules (.rule rule) visiting (true, visiting)
  | union {rule : Rule} {visiting : List RuleId} (widens : rule.operation = some .union) :
      Searched rules (.rule rule) visiting (false, visiting)
  | difference {rule : Rule} {visiting : List RuleId}
      (excludes : rule.operation = some .difference) :
      Searched rules (.rule rule) visiting (false, visiting)
  | again {rule : Rule} {visiting : List RuleId}
      (narrows : rule.operation = some .intersection) (visited : rule.id ∈ visiting) :
      Searched rules (.rule rule) visiting (false, visiting)
  | descends {rule : Rule} {visiting after : List RuleId} {found : Bool}
      (narrows : rule.operation = some .intersection) (new : rule.id ∉ visiting)
      (all : Searched rules (.operands (rule.dependencies.getD [])) (rule.id :: visiting)
        (found, after)) :
      Searched rules (.rule rule) visiting (found, after.erase rule.id)
  | done {visiting : List RuleId} : Searched rules (.operands []) visiting (true, visiting)
  | missing {id : RuleId} {rest visiting : List RuleId} {outcome : Bool × List RuleId}
      (unlisted : lookup? rules id = none)
      (others : Searched rules (.operands rest) visiting outcome) :
      Searched rules (.operands (id :: rest)) visiting outcome
  | passes {id : RuleId} {operand : Rule} {rest visiting after : List RuleId}
      {outcome : Bool × List RuleId} (listed : lookup? rules id = some operand)
      (one : Searched rules (.rule operand) visiting (true, after))
      (others : Searched rules (.operands rest) after outcome) :
      Searched rules (.operands (id :: rest)) visiting outcome
  | fails {id : RuleId} {operand : Rule} {rest visiting after : List RuleId}
      (listed : lookup? rules id = some operand)
      (one : Searched rules (.rule operand) visiting (false, after)) :
      Searched rules (.operands (id :: rest)) visiting (false, after)

/-- The check that is run, to a certain depth. -/
def Subject.check (rules : List Rule) (depth : Nat) :
    Subject → List RuleId → Bool × List RuleId
  | .rule rule => checkReusable rules depth rule
  | .operands ids => allOperands (checkReusable rules depth) rules ids

namespace Searched

variable {subject : Subject} {outcome outcome' : Bool × List RuleId}

/-- Whatever a check finds, and wherever it breaks off, it leaves no mark. -/
theorem restores (h : Searched rules subject visiting outcome) : outcome.2 = visiting := by
  induction h with
  | plain => rfl
  | union => rfl
  | difference => rfl
  | again => rfl
  | descends _ _ _ same =>
    dsimp only at same ⊢
    rw [same, List.erase_cons_head]
  | done => rfl
  | missing _ _ same => exact same
  | passes _ _ _ same same_others => exact same_others.trans same
  | fails _ _ same => exact same

/-- A search that comes to an end is the one that is run, if that may go deep enough. -/
theorem exists_depth (h : Searched rules subject visiting outcome) :
    ∃ least, ∀ depth, least ≤ depth → subject.check rules (depth + 1) visiting = outcome := by
  induction h with
  | plain untied => exact ⟨0, fun depth _ => by rw [Subject.check, checkReusable, untied]⟩
  | union widens => exact ⟨0, fun depth _ => by rw [Subject.check, checkReusable, widens]⟩
  | difference excludes =>
    exact ⟨0, fun depth _ => by rw [Subject.check, checkReusable, excludes]⟩
  | again narrows visited =>
    use 0
    intro depth _
    rw [Subject.check, checkReusable, narrows]
    exact if_pos visited
  | descends narrows new _ same =>
    obtain ⟨least, same⟩ := same
    use least + 1
    intro depth deep
    obtain ⟨depth, rfl⟩ := Nat.exists_eq_add_one_of_ne_zero (Nat.ne_zero_of_lt deep)
    have found := same depth (by omega)
    simp only [Subject.check] at found ⊢
    rw [checkReusable, narrows]
    dsimp only
    rw [if_neg new, found]
  | done => exact ⟨0, fun _ _ => rfl⟩
  | missing unlisted _ same =>
    obtain ⟨least, same⟩ := same
    use least
    intro depth deep
    rw [Subject.check, allOperands, unlisted]
    exact same depth deep
  | passes listed _ _ same same_others =>
    obtain ⟨least, same⟩ := same
    obtain ⟨least', same_others⟩ := same_others
    use max least least'
    intro depth deep
    have found := same depth (by omega)
    simp only [Subject.check] at found ⊢
    rw [allOperands, listed]
    dsimp only
    rw [found]
    exact same_others depth (by omega)
  | fails listed _ same =>
    obtain ⟨least, same⟩ := same
    use least
    intro depth deep
    have found := same depth deep
    simp only [Subject.check] at found ⊢
    rw [allOperands, listed]
    dsimp only
    rw [found]

/-- There is no other end to a search. -/
theorem unique (h : Searched rules subject visiting outcome)
    (h' : Searched rules subject visiting outcome') : outcome = outcome' := by
  obtain ⟨least, same⟩ := h.exists_depth
  obtain ⟨least', same'⟩ := h'.exists_depth
  rw [← same (max least least') (by omega), same' _ (by omega)]

end Searched

/-! ## The end of the search -/

/-- The rules that a search is visiting: distinct intersections of the list. -/
structure Underway (rules : List Rule) (visiting : List RuleId) : Prop where
  distinct : visiting.Nodup
  narrows : ∀ id ∈ visiting, ∃ r ∈ rules, r.id = id ∧ r.operation = some .intersection

namespace Underway

theorem nil : Underway rules [] := ⟨List.nodup_nil, nofun⟩

theorem cons (underway : Underway rules visiting) (listed : rule ∈ rules)
    (narrows : rule.operation = some .intersection) (new : rule.id ∉ visiting) :
    Underway rules (rule.id :: visiting) where
  distinct := List.nodup_cons.mpr ⟨new, underway.distinct⟩
  narrows := List.forall_mem_cons.mpr ⟨⟨rule, listed, rfl, narrows⟩, underway.narrows⟩

/-- No more rules are being visited than there are. -/
theorem length_le (underway : Underway rules visiting) : visiting.length ≤ rules.length := by
  have listed : visiting ⊆ rules.map Rule.id := by
    intro id hid
    obtain ⟨r, hr, rfl, -⟩ := underway.narrows id hid
    exact List.mem_map_of_mem hr
  simpa using (List.Nodup.subperm underway.distinct listed).length_le

/-- Only an intersection is being visited. -/
theorem operation_eq (underway : Underway rules visiting) (distinct : (rules.map Rule.id).Nodup)
    (listed : rule ∈ rules) (visited : rule.id ∈ visiting) :
    rule.operation = some .intersection := by
  obtain ⟨r, hr, same, narrows⟩ := underway.narrows _ visited
  rwa [← List.inj_on_of_nodup_map distinct hr listed same]

end Underway

theorem searched_allOperands (distinct : (rules.map Rule.id).Nodup)
    {check : Rule → List RuleId → Bool × List RuleId}
    (searched : ∀ operand ∈ rules,
      Searched rules (.rule operand) visiting (check operand visiting)) (ids : List RuleId) :
    Searched rules (.operands ids) visiting (allOperands check rules ids visiting) := by
  induction ids with
  | nil => exact .done
  | cons id rest ih =>
    rw [allOperands]
    cases found : lookup? rules id with
    | none => exact .missing found ih
    | some operand =>
      have one := searched operand ((lookup?_eq_some distinct).mp found).1
      -- The other operands are checked with the same rules being visited.
      have restored := one.restores
      dsimp only
      split
      · next after passed =>
        rw [passed] at one restored
        obtain rfl := restored
        exact .passes found one ih
      · next after failed =>
        rw [failed] at one
        exact .fails found one

/-- Every step deeper leaves one rule fewer to visit, so among distinct rules the search ends
before it is as deep as there are rules. -/
theorem searched_checkReusable (distinct : (rules.map Rule.id).Nodup) (listed : rule ∈ rules)
    (underway : Underway rules visiting) {depth : Nat}
    (deep : rules.length < depth + visiting.length) :
    Searched rules (.rule rule) visiting (checkReusable rules depth rule visiting) := by
  induction depth generalizing rule visiting with
  | zero =>
    have few := underway.length_le
    omega
  | succ depth ih =>
    rw [checkReusable]
    cases operation : rule.operation with
    | none => exact .plain operation
    | some operation' =>
      cases operation' with
      | union => exact .union operation
      | difference => exact .difference operation
      | intersection =>
        dsimp only
        split
        · next visited => exact .again operation visited
        · next new =>
          apply Searched.descends operation new
          apply searched_allOperands distinct
          intro operand operand_listed
          apply ih operand_listed (underway.cons listed operation new)
          rw [List.length_cons]
          omega

/-! ## Ways that break a rule -/

/-- A way from one rule to another along dependencies that are listed, where each step leaves an
intersection. The intersections that are left are those passed on the way. -/
inductive Walk (rules : List Rule) : Rule → List RuleId → Rule → Prop
  | here (rule : Rule) : Walk rules rule [] rule
  | step {rule operand last : Rule} {passed : List RuleId}
      (narrows : rule.operation = some .intersection) (listed : operand ∈ rules)
      (depends : operand.id ∈ rule.dependencies.getD []) (rest : Walk rules operand passed last) :
      Walk rules rule (rule.id :: passed) last

/-- Some way from a rule ends in a union, in a difference, or in a rule that was passed or is being
visited. -/
def Breaks (rules : List Rule) (visiting : List RuleId) (rule : Rule) : Prop :=
  ∃ passed last, Walk rules rule passed last ∧
    (last.operation = some .union ∨ last.operation = some .difference ∨
      last.id ∈ passed ++ visiting)

/-- An intersection is broken by a way from one of its operands, which must not lead back to it. -/
theorem breaks_iff_of_intersection (narrows : rule.operation = some .intersection)
    (new : rule.id ∉ visiting) :
    Breaks rules visiting rule ↔ ∃ operand ∈ rules,
      operand.id ∈ rule.dependencies.getD [] ∧ Breaks rules (rule.id :: visiting) operand := by
  constructor
  · rintro ⟨passed, last, walk, ends⟩
    cases walk with
    | here => simp [narrows, new] at ends
    | step _ listed depends rest =>
      refine ⟨_, listed, depends, _, last, rest, ends.imp_right fun ends => ends.imp_right ?_⟩
      simp only [List.mem_append, List.mem_cons]
      tauto
  · rintro ⟨operand, listed, depends, passed, last, rest, ends⟩
    refine ⟨_, last, .step narrows listed depends rest, ?_⟩
    refine ends.imp_right fun ends => ends.imp_right ?_
    simp only [List.mem_append, List.mem_cons]
    tauto

/-- What is checked is broken, if it is a rule, or one of the operands is. -/
def Subject.Breaks (rules : List Rule) (visiting : List RuleId) : Subject → Prop
  | .rule rule => Rule.Breaks rules visiting rule
  | .operands ids => ∃ operand ∈ rules, operand.id ∈ ids ∧ Rule.Breaks rules visiting operand

/-- A rule that is checked is one of the list. -/
def Subject.Listed (rules : List Rule) : Subject → Prop
  | .rule rule => rule ∈ rules
  | .operands _ => True

/-- A rule with no operands is broken by no way. -/
theorem not_breaks_of_untied (distinct : (rules.map Rule.id).Nodup) (listed : rule ∈ rules)
    (underway : Underway rules visiting) (untied : rule.operation = none) :
    ¬ Breaks rules visiting rule := by
  rintro ⟨passed, last, walk, ends⟩
  cases walk with
  | here =>
    -- A rule that is being visited is an intersection.
    have visited : rule.id ∈ visiting := by simpa [untied] using ends
    have narrows := underway.operation_eq distinct listed visited
    rw [untied] at narrows
    cases narrows
  | step narrows =>
    rw [untied] at narrows
    cases narrows

/-- A check fails just if there is a way that breaks what is checked. -/
theorem Searched.eq_false_iff {subject : Subject} {outcome : Bool × List RuleId}
    (h : Searched rules subject visiting outcome) (distinct : (rules.map Rule.id).Nodup)
    (subject_listed : subject.Listed rules) (underway : Underway rules visiting) :
    outcome.1 = false ↔ subject.Breaks rules visiting := by
  have of_lookup : ∀ {id operand}, lookup? rules id = some operand →
      operand ∈ rules ∧ operand.id = id := (lookup?_eq_some distinct).mp
  have one_of_id : ∀ {r r'}, r ∈ rules → r' ∈ rules → r.id = r'.id → r = r' :=
    fun hr hr' => List.inj_on_of_nodup_map distinct hr hr'
  induction h with
  | plain untied =>
    exact iff_of_false Bool.noConfusion
      (not_breaks_of_untied distinct subject_listed underway untied)
  | union widens => exact iff_of_true rfl ⟨[], _, .here _, .inl widens⟩
  | difference excludes => exact iff_of_true rfl ⟨[], _, .here _, .inr (.inl excludes)⟩
  | again _ visited => exact iff_of_true rfl ⟨[], _, .here _, .inr (.inr visited)⟩
  | descends narrows new _ ih =>
    apply (ih trivial (underway.cons subject_listed narrows new)).trans
    exact (breaks_iff_of_intersection narrows new).symm
  | done => simp [Subject.Breaks]
  | @missing id rest _ _ unlisted _ ih =>
    have absent : ∀ operand ∈ rules, operand.id ≠ id := by
      intro operand listed same
      have found := (lookup?_eq_some distinct).mpr ⟨listed, same⟩
      rw [unlisted] at found
      cases found
    apply (ih trivial underway).trans
    simp only [Subject.Breaks, List.mem_cons]
    grind
  | @passes id operand rest _ _ _ found one _ ih ih_others =>
    obtain ⟨listed, rfl⟩ := of_lookup found
    obtain rfl := one.restores
    have sound := (ih listed underway).not.mp Bool.noConfusion
    apply (ih_others trivial underway).trans
    simp only [Subject.Breaks, List.mem_cons] at sound ⊢
    grind
  | @fails id operand _ _ _ found _ ih =>
    obtain ⟨listed, rfl⟩ := of_lookup found
    exact iff_of_true rfl ⟨operand, listed, List.mem_cons_self, (ih listed underway).mp rfl⟩

/-- Among distinct rules, the search for whether a rule can be used comes to one end, with no rule
being visited any more. It fails just if a way from the rule, with each step from an intersection
to one of its listed operands, ends in a union, a difference, or a rule that is already on the
way. Every check leaves behind the rules that were being visited before it, so operands that are
checked one after the other pass just if each of them passes on its own. -/
theorem isReusable_decides_walks (distinct : (rules.map Rule.id).Nodup) (listed : rule ∈ rules) :
    (∀ outcome, Searched rules (.rule rule) [] outcome ↔
        outcome = (rule.isReusable rules, [])) ∧
      (rule.isReusable rules = false ↔ ∃ passed last, Walk rules rule passed last ∧
        (last.operation = some .union ∨ last.operation = some .difference ∨ last.id ∈ passed)) ∧
      ∀ depth visiting, (checkReusable rules depth rule visiting).2 = visiting ∧
        ∀ ids, allOperands (checkReusable rules depth) rules ids visiting =
          (ids.all fun id => (lookup? rules id).all fun operand =>
            (checkReusable rules depth operand visiting).1, visiting) := by
  have course : Searched rules (.rule rule) [] (rule.isReusable rules, []) := by
    have searched : Searched rules (.rule rule) []
        (checkReusable rules (rules.length + 1) rule []) :=
      searched_checkReusable distinct listed .nil (Nat.lt_succ_self _)
    have same : checkReusable rules (rules.length + 1) rule [] = (rule.isReusable rules, []) :=
      Prod.ext rfl (checkReusable_snd rules _ rule [])
    rwa [same] at searched
  refine ⟨?_, ?_, ?_⟩
  · intro outcome
    constructor
    · intro h
      exact h.unique course
    · rintro rfl
      exact course
  · have fails_iff := course.eq_false_iff distinct listed .nil
    simpa [Subject.Breaks, Breaks] using fails_iff
  · intro depth visiting
    constructor
    · exact checkReusable_snd rules depth rule visiting
    · intro ids
      exact allOperands_eq (checkReusable_snd rules depth) ids visiting

/-- A rule that combines others. -/
private def combining (id : Nat) (operation : SetOperation) (dependencies : List Nat) : Rule :=
  { Rule.plain id [] with
    operation := some operation, dependencies := some (dependencies.map RuleId.ofNat) }

/-- Rule 1 leads to rule 4 by way of both 2 and 3, and names a rule that is not there. Rules 5 and
6 lead to one another. Rule 7 has a union among its operands. -/
private def interwoven : List Rule :=
  [combining 1 .intersection [2, 3, 9], combining 2 .intersection [4],
    combining 3 .intersection [4], .plain 4 [], combining 5 .intersection [1, 6],
    combining 6 .intersection [5], combining 7 .intersection [4, 8], combining 8 .union [4, 1]]

/-- That one rule is reached on two ways, or that a rule is missing, is no obstacle, and neither is
a rule that was checked before: rule 5 fails for rule 6, after rule 1 has passed. -/
theorem isReusable_decides_walks_interwoven :
    interwoven.map (fun r => (r.id.toNat, r.isReusable interwoven)) =
        [(1, true), (2, true), (3, true), (4, true), (5, false), (6, false), (7, false),
          (8, false)] ∧
      Searched interwoven (.rule (combining 1 .intersection [2, 3, 9])) [] (true, []) ∧
      ∃ passed last, Walk interwoven (combining 5 .intersection [1, 6]) passed last ∧
        (last.operation = some .union ∨ last.operation = some .difference ∨ last.id ∈ passed) := by
  have distinct : (interwoven.map Rule.id).Nodup := by decide
  have first : combining 1 .intersection [2, 3, 9] ∈ interwoven := by simp [interwoven]
  have fifth : combining 5 .intersection [1, 6] ∈ interwoven := by simp [interwoven]
  refine ⟨by decide +kernel, ?_, ?_⟩
  · apply ((isReusable_decides_walks distinct first).1 _).mpr
    decide +kernel
  · apply (isReusable_decides_walks distinct fifth).2.1.mp
    decide +kernel

end Cohort.Rule
