import Cohort.Proofs.Manager.Commits
import Cohort.Proofs.Program.Protocol
import Cohort.Proofs.Scheduler.Attendance

/-!
# Deletions made in turns

A deletion looks at the rows, takes out the job, waits for the lock and only then removes the row.
Several deletions of one rule can get past the first look before any of them has removed the row.
The first one to hold the lock removes it. The others find no row to remove and put the job back,
from the row that they saw before they waited: the rule is gone, and it has a job again.

## Main definitions

* `Deletion.Stage` — how far a deletion has come
* `Protocol.deleting` — the requests of a deletion, by its stage
* `Deletion.Step` — what a request of a deletion does to the row and the job of its rule
* `Deletion.Interleaved` — deletions of one rule in turns with other changes
* `Clients.Unschedules` — a deletion gets past its first look

## Main results

* `deleteRule_follows_deleting` — a deletion goes through its stages
* `Deletion.Interleaved.ledger` — who owes a job, and who has left one
* `deletions_leave_no_job_iff` — deleted rules have no jobs just if no active rule has two deletions
  that get past their first look
* `deletions_leave_job` — two such deletions
-/

namespace Cohort

open Cohort.Action

variable {setup : Setup} {s s' s₀ : State} {id : RuleId} {r : Request} {rule : Rule} {a : Bool}

/-! ## The stages of a deletion -/

namespace Deletion

/-- How far a deletion has come. Once it has seen the row, it knows whether the rule is active. -/
inductive Stage where
  | asked
  /-- The row was there, and nothing depended on the rule. -/
  | found (active : Bool)
  /-- The job was taken out, and the row has yet to be removed. -/
  | pending (active : Bool)
  /-- There was no row to remove, and the job has yet to be put back. -/
  | failed (active : Bool)
  | refused
  | removed
  | restored

namespace Stage

/-- The deletion has nothing more to do. -/
def IsOver : Stage → Prop
  | refused | removed | restored => True
  | _ => False

/-- The deletion has taken out the job. -/
def IsBeyond : Stage → Prop
  | pending _ | failed _ | removed | restored => True
  | _ => False

/-- The deletion has taken out the job, and can still put it back. -/
def Owes : Stage → Prop
  | pending _ | failed _ => True
  | _ => False

end Stage

/-- A request that a deletion makes beside what it does to rows and jobs. -/
def Accompanies : Request → Bool
  | .lock _ | .unlock _ | .now | .emit _ => true
  | _ => false

/-- A request of a deletion, its answer, and the stage that comes next. -/
inductive Moves (id : RuleId) : Stage → (r : Request) → r.Answer → Stage → Prop
  | stays {stage : Stage} {r : Request} {answer : r.Answer} (own : Accompanies r = true) :
      Moves id stage r answer stage
  | refused {rows : List Entry}
      (defect : ∀ e, rows.find? (fun e => e.id = id) = some e → dependents rows id ≠ []) :
      Moves id .asked .listRows rows .refused
  | found {rows : List Entry} {e : Entry} (listed : rows.find? (fun e => e.id = id) = some e)
      (free : dependents rows id = []) : Moves id .asked .listRows rows (.found e.rule.active)
  | unscheduled {active was : Bool} :
      Moves id (.found active) (.removeJob id) was (.pending active)
  | dropped {active : Bool} {table : String} :
      Moves id (.pending active) (.dropTable table) (.ok ()) (.pending active)
  | undropped {active : Bool} {table : String} {failure : EngineFailure} :
      Moves id (.pending active) (.dropTable table) (.error failure) (.failed active)
  | removed {active : Bool} {e : Entry} :
      Moves id (.pending active) (.removeRow id) (.ok e) .removed
  | unremoved {active : Bool} {failure : Failure} :
      Moves id (.pending active) (.removeRow id) (.error failure) (.failed active)
  | restored {next : Instant} {timer : Option Instant} :
      Moves id (.failed true) (.installJob id next timer) () .restored
  | settled {was : Bool} : Moves id (.failed false) (.removeJob id) was .restored

end Deletion

open Deletion

/-- The requests of a deletion, by its stage. -/
def Protocol.deleting (id : RuleId) : Protocol Stage where
  Admits stage r := ∀ answer : r.Answer, ∃ stage', Moves id stage r answer stage'
  Leads stage r answer stage' := Moves id stage r answer stage'

/-- A request beside rows and jobs leaves a deletion at its stage. -/
theorem follows_accompanied_bind {α : Type} {f : r.Answer → Action α} {stage : Stage}
    {good : α → Stage → Prop} {bad : Stage → Prop} (own : Accompanies r = true)
    (h : ∀ answer, (f answer).Follows (.deleting id) stage good bad) :
    (Action.call r >>= f).Follows (.deleting id) stage good bad := by
  refine follows_call_bind.mpr ⟨fun _ => ⟨stage, .stays own⟩, fun answer stage' moves => ?_⟩
  cases moves with
  | stays => exact h answer
  | _ => cases own

/-- A job that was taken out is put back, unless the rule is not active. -/
theorem restoreJob_follows (setup : Setup) (rule : Rule) :
    (schedule setup.whileWaiting rule).Follows (.deleting rule.id) (.failed rule.active)
      (fun _ stage => stage = .restored) fun _ => False := by
  unfold schedule
  cases active : rule.active with
  | false =>
    rw [if_pos (by rfl)]
    refine follows_call_bind.mpr ⟨fun _ => ⟨_, .settled⟩, fun was stage' moves => ?_⟩
    cases moves with
    | stays own => cases own
    | settled => exact (follows_pure _).mpr rfl
  | true =>
    have install : ∀ (next : Instant) (timer : Option Instant),
        (Action.call (.installJob rule.id next timer)).Follows (.deleting rule.id) (.failed true)
          (fun _ stage => stage = .restored) fun _ => False := by
      intro next timer
      refine follows_call.mpr ⟨fun _ => ⟨_, .restored⟩, fun answer stage' moves => ?_⟩
      cases moves with
      | stays own => cases own
      | restored => rfl
    rw [if_neg (by simp), if_neg (by simp [Setup.whileWaiting])]
    cases rule.nextRunAt with
    | some next => exact install next _
    | none => exact follows_accompanied_bind rfl fun now => install now _

/-- The part of a deletion that holds the lock removes the row, or it fails. -/
theorem deleteLocked_follows (current : Entry) (a : Bool) :
    (deleteLocked current).Follows (.deleting current.id) (.pending a)
      (fun _ stage => stage = .removed) fun stage => stage = .failed a := by
  unfold deleteLocked
  refine follows_call_bind.mpr ⟨fun answer => ?_, fun answer stage' moves => ?_⟩
  · cases answer with
    | ok => exact ⟨_, .dropped⟩
    | error => exact ⟨_, .undropped⟩
  cases moves with
  | stays own => cases own
  | undropped => exact (follows_throw _).mpr rfl
  | dropped =>
    refine follows_check.mpr (Program.follows_call.mpr
      ⟨fun answer => ?_, fun answer stage' moves => ?_⟩)
    · cases answer with
      | ok => exact ⟨_, .removed⟩
      | error => exact ⟨_, .unremoved⟩
    cases moves with
    | stays own => cases own
    | removed => rfl
    | unremoved => rfl

/-- A deletion goes through its stages to the end. -/
theorem deleteRule_follows_deleting (setup : Setup) (id : RuleId) :
    (deleteRule setup id).Follows (.deleting id) .asked (fun _ stage => stage.IsOver)
      fun stage => stage.IsOver := by
  unfold deleteRule
  refine follows_call_bind.mpr ⟨fun rows => ?_, fun rows stage' moves => ?_⟩
  · by_cases passes : ∃ e, rows.find? (fun e => e.id = id) = some e ∧ dependents rows id = []
    · obtain ⟨e, listed, free⟩ := passes
      exact ⟨_, .found listed free⟩
    · exact ⟨_, .refused fun e listed free => passes ⟨e, listed, free⟩⟩
  cases moves with
  | stays own => cases own
  | refused defect =>
    split
    · exact (follows_throw _).mpr trivial
    · next current listed =>
      rw [if_pos (by simpa using defect current listed)]
      exact (follows_throw _).mpr trivial
  | @found _ current listed free =>
    obtain rfl : current.id = id := by simpa using List.find?_some listed
    rw [listed]
    dsimp only
    rw [if_neg (by simp [free])]
    refine follows_call_bind.mpr ⟨fun _ => ⟨_, .unscheduled⟩, fun was stage' moves => ?_⟩
    cases moves with
    | stays own => cases own
    | unscheduled =>
      refine follows_accompanied_bind rfl fun _ => follows_of_bind.mpr ?_
      refine (deleteLocked_follows current current.rule.active).outcome ?_ ?_
      · rintro removed stage rfl
        exact follows_accompanied_bind rfl fun _ =>
          follows_accompanied_bind rfl fun _ => (follows_pure _).mpr trivial
      · rintro failure stage rfl
        refine follows_of_bind.mpr ((restoreJob_follows setup current.rule).outcome ?_ ?_)
        · rintro _ stage rfl
          exact follows_accompanied_bind rfl fun _ => (follows_throw _).mpr trivial
        · exact fun _ _ never => never.elim

theorem Mutation.delete_follows (setup : Setup) (id : RuleId) :
    ((Mutation.delete id).program setup).Follows (.deleting id) .asked
      fun _ stage => stage.IsOver := by
  have outcome : (deleteRule setup id).outcome.Follows (.deleting id) .asked
      fun _ stage => stage.IsOver :=
    (deleteRule_follows_deleting setup id).outcome (fun _ _ ended => ended) fun _ _ ended => ended
  exact outcome.bind fun _ _ ended => (Program.follows_pure _).mpr ended

/-! ## What a deletion does to its rule -/

namespace Deletion

variable {stage stage' : Stage} {rule? rule?' : Option Rule} {job? job?' : Option Job}

/-- What a request of a deletion does to its rule and to the job. -/
inductive Step : Stage → Option Rule → Option Job → Stage → Option Rule → Option Job → Prop
  | waits {stage : Stage} {rule? : Option Rule} {job? : Option Job} :
      Step stage rule? job? stage rule? job?
  | refuses {rule? : Option Rule} {job? : Option Job} : Step .asked rule? job? .refused rule? job?
  | finds {rule : Rule} {job? : Option Job} :
      Step .asked (some rule) job? (.found rule.active) (some rule) job?
  | unschedules {active : Bool} {rule? : Option Rule} {job? : Option Job} :
      Step (.found active) rule? job? (.pending active) rule? none
  | removes {active : Bool} {rule : Rule} {job? : Option Job} :
      Step (.pending active) (some rule) job? .removed none job?
  | misses {active : Bool} {job? : Option Job} :
      Step (.pending active) none job? (.failed active) none job?
  | restores {rule? : Option Rule} {job? : Option Job} {job : Job} :
      Step (.failed true) rule? job? .restored rule? (some job)
  | settles {rule? : Option Rule} {job? : Option Job} :
      Step (.failed false) rule? job? .restored rule? none

/-- The catalogue has each row under its identifier, and neither it nor the engine refuses anything
without a reason. -/
structure Obliging (s : State) : Prop where
  indexed : s.catalog.Indexed
  faultless : s.faults = {}
  drops : s.engine.failingDrops = []

theorem Obliging.perform (h : Obliging s) (r : Request) : Obliging (s.perform r).2 where
  indexed := State.perform_indexed h.indexed r
  faultless := State.perform_faultless h.faultless r
  drops := (s.perform_switches r).2.2.2.trans h.drops

theorem not_concerns_of_accompanies (own : Accompanies r = true) : ¬r.Concerns id := by
  cases r <;> simp_all [Accompanies, Request.Concerns]

/-- Where nothing is refused without a reason, a row that cannot be removed is missing. -/
theorem Moves.step (obliging : Obliging s) (h : Moves id stage r (s.perform r).1 stage') :
    Step stage (s.catalog.rule? id) (s.board.job? id) stage'
      ((s.perform r).2.catalog.rule? id) ((s.perform r).2.board.job? id) := by
  generalize answered : (s.perform r).1 = answer at h
  cases h with
  | stays own =>
    have other : ¬r.Concerns id := not_concerns_of_accompanies own
    rw [s.perform_rule? other, s.perform_job? other]
    exact .waits
  | refused defect => exact .refuses
  | @found rows e listed free =>
    obtain rfl : s.catalog.list = rows := answered
    obtain rfl : e.id = id := by simpa using List.find?_some listed
    simp only [State.perform]
    rw [obliging.indexed.rule?_of_mem (List.mem_of_find?_eq_some listed)]
    exact .finds
  | unscheduled =>
    simp only [State.perform, JobBoard.job?_remove, if_pos]
    exact .unschedules
  | dropped => exact .waits
  | undropped => simp [State.perform, Engine.dropTable, obliging.drops] at answered
  | removed =>
    rw [State.perform_removeRow obliging.faultless] at answered ⊢
    rcases s.catalog.remove_cases id
      with ⟨failure, unchanged⟩ | ⟨current, c', removed, found, rows, -⟩
    · rw [unchanged] at answered
      cases answered
    · have there : s.catalog.rule? id = some current.rule := by rw [Catalog.rule?, found]; rfl
      have gone : c'.rule? id = none := (Catalog.rule?_of_erase rows id).trans (if_pos rfl)
      rw [removed, there]
      dsimp only
      rw [gone]
      exact .removes
  | unremoved =>
    rw [State.perform_removeRow obliging.faultless] at answered ⊢
    cases found : s.catalog.get? id with
    | some current =>
      rw [Catalog.remove_eq found] at answered
      cases answered
    | none =>
      have gone : s.catalog.rule? id = none := by rw [Catalog.rule?, found]; rfl
      simp only [Catalog.remove, found]
      rw [gone]
      exact .misses
  | restored =>
    simp only [State.perform, JobBoard.job?_install, if_pos]
    exact .restores
  | settled =>
    simp only [State.perform, JobBoard.job?_remove, if_pos]
    exact .settles

/-- A deletion gets beyond its look at the rows where it takes out the job. -/
theorem Moves.isBeyond_iff {answer : r.Answer} (h : Moves id stage r answer stage') :
    stage'.IsBeyond ↔ stage.IsBeyond ∨ r = .removeJob id := by
  cases h with
  | stays own =>
    refine ⟨.inl, fun beyond => beyond.resolve_right ?_⟩
    rintro rfl
    cases own
  | _ => simp [Stage.IsBeyond]

/-- A deletion does not concern another rule. -/
theorem Moves.concerns {answer : r.Answer} {other : RuleId} (h : Moves id stage r answer stage')
    (concerned : r.Concerns other) : id = other := by
  cases h with
  | stays own => exact absurd concerned (not_concerns_of_accompanies own)
  | unscheduled => exact concerned
  | removed => exact concerned
  | unremoved => exact concerned
  | restored => exact concerned
  | settled => exact concerned
  | _ => exact concerned.elim

/-! ## Deletions of one rule -/

/-- The stages of deletions of one rule, and what they have made of the rule and of its job. -/
inductive Interleaved (Deletes : Nat → Prop) (rule₀ : Option Rule) (job₀ : Option Job) :
    (Nat → Stage) → Option Rule → Option Job → Prop
  | start : Interleaved Deletes rule₀ job₀ (fun _ => .asked) rule₀ job₀
  | step {stages : Nat → Stage} {rule? rule?' : Option Rule} {job? job?' : Option Job} {i : Nat}
      {stage : Stage} (h : Interleaved Deletes rule₀ job₀ stages rule? job?) (own : Deletes i)
      (step : Step (stages i) rule? job? stage rule?' job?') :
      Interleaved Deletes rule₀ job₀ (Function.update stages i stage) rule?' job?'

variable {Deletes : Nat → Prop} {stages : Nat → Stage} {i : Nat} {rule₀ : Option Rule}
  {job₀ : Option Job} {active : Bool}

/-- What a deletion at some stage has seen of the activity of the rule. -/
def Stage.saw? : Stage → Option Bool
  | found active | pending active | failed active => some active
  | _ => none

/-- The rule is active or not, or it is gone, and that is what its deletions have seen. -/
structure Informed (Deletes : Nat → Prop) (active : Bool) (stages : Nat → Stage)
    (rule? : Option Rule) : Prop where
  saw : ∀ i, Deletes i → ∀ a, (stages i).saw? = some a → a = active
  rule : ∀ rule, rule? = some rule → rule.active = active

theorem Step.saw (step : Step stage rule? job? stage' rule?' job?') (h : stage'.saw? = some a) :
    stage.saw? = some a ∨ ∃ rule, rule? = some rule ∧ rule.active = a := by
  cases step <;> simp_all [Stage.saw?]

theorem Step.rule_cases (step : Step stage rule? job? stage' rule?' job?') :
    rule?' = rule? ∨ rule?' = none := by
  cases step <;> simp

theorem Interleaved.informed (h : Interleaved Deletes rule₀ job₀ stages rule? job?)
    (seen : ∀ rule, rule₀ = some rule → rule.active = active) :
    Informed Deletes active stages rule? := by
  induction h with
  | start => exact ⟨fun _ _ _ => nofun, seen⟩
  | step _ own step ih =>
    refine ⟨fun j owns b hsaw => ?_, fun found there => ?_⟩
    · rw [Function.update_apply] at hsaw
      split at hsaw
      · next same =>
        subst same
        rcases step.saw hsaw with before | ⟨found, there, rfl⟩
        · exact ih.saw j owns b before
        · exact ih.rule found there
      · exact ih.saw j owns b hsaw
    · rcases step.rule_cases with same | gone
      · exact ih.rule found (same ▸ there)
      · cases gone.symm.trans there

/-- Two deletions have taken out the job. -/
def Several (Deletes : Nat → Prop) (stages : Nat → Stage) : Prop :=
  ∃ i j, i ≠ j ∧ (Deletes i ∧ (stages i).IsBeyond) ∧ Deletes j ∧ (stages j).IsBeyond

/-- The deletions of an active rule. While the row is there, those that took out the job wait to
remove it, and there is no job. When the row is gone, one of them has removed it. If several of
them took out the job, there is a job again, or one of them owes it. -/
structure Ledger (Deletes : Nat → Prop) (stages : Nat → Stage) (rule? : Option Rule)
    (job? : Option Job) : Prop where
  waits : rule?.isSome = true → ∀ i, Deletes i → (stages i).IsBeyond →
    (∃ a, stages i = .pending a) ∧ job? = none
  removed : rule? = none → ∃ i, Deletes i ∧ stages i = .removed
  job : rule? = none → job?.isSome = true → Several Deletes stages
  owed : rule? = none → job? = none → Several Deletes stages → ∃ i, Deletes i ∧ (stages i).Owes

/-- In a step of one deletion, another one stays where it is. -/
theorem update_of_apart {j : Nat} {other : Stage} (at_stage : stages j = other)
    (apart : stages i ≠ other) : Function.update stages i stage j = other := by
  rw [Function.update_of_ne, at_stage]
  rintro rfl
  exact apart at_stage

theorem isBeyond_update (same : stage.IsBeyond ↔ (stages i).IsBeyond) (j : Nat) :
    (Function.update stages i stage j).IsBeyond ↔ (stages j).IsBeyond := by
  by_cases own : j = i
  · rw [own, Function.update_self, same]
  · rw [Function.update_of_ne own]

theorem several_update (same : stage.IsBeyond ↔ (stages i).IsBeyond) :
    Several Deletes (Function.update stages i stage) ↔ Several Deletes stages := by
  simp only [Several, isBeyond_update same]

/-- If several deletions have taken out the job, one of them is not the one at hand. -/
theorem Several.another (h : Several Deletes stages) (i : Nat) :
    ∃ j, j ≠ i ∧ Deletes j ∧ (stages j).IsBeyond := by
  obtain ⟨j, l, apart, ⟨owns, beyond⟩, owns', beyond'⟩ := h
  by_cases first : j = i
  · exact ⟨l, fun second => apart (first.trans second.symm), owns', beyond'⟩
  · exact ⟨j, first, owns, beyond⟩

theorem isBeyond_of_asked (before : stages i = .asked) (next : ¬stage.IsBeyond) :
    stage.IsBeyond ↔ (stages i).IsBeyond := by
  rw [before]
  exact iff_of_false next not_false

/-- The deletion that has removed the row has done so for good. -/
theorem Ledger.removed_update (h : Ledger Deletes stages rule? job?) (gone : rule? = none)
    (apart : stages i ≠ .removed) :
    ∃ j, Deletes j ∧ Function.update stages i stage j = .removed := by
  obtain ⟨j, owns, removed⟩ := h.removed gone
  exact ⟨j, owns, update_of_apart removed apart⟩

theorem owes_update (own : Deletes i) (owes : stage.Owes) :
    ∃ j, Deletes j ∧ (Function.update stages i stage j).Owes :=
  ⟨i, own, by rwa [Function.update_self]⟩

/-- A deletion that looks at the rows changes nothing, whatever it finds. -/
theorem Ledger.looks (h : Ledger Deletes stages rule? job?) (before : stages i = .asked)
    (next : ¬stage.IsBeyond) : Ledger Deletes (Function.update stages i stage) rule? job? := by
  have same := isBeyond_of_asked before next
  refine ⟨fun there j owns beyond => ?_, fun gone => h.removed_update gone (by simp [before]),
    fun gone some_job => ?_, fun gone no_job several => ?_⟩
  · obtain ⟨⟨a, pending⟩, no_job⟩ := h.waits there j owns ((isBeyond_update same j).mp beyond)
    exact ⟨⟨a, update_of_apart pending (by simp [before])⟩, no_job⟩
  · exact (several_update same).mpr (h.job gone some_job)
  · obtain ⟨j, owns, owes⟩ := h.owed gone no_job ((several_update same).mp several)
    refine ⟨j, owns, ?_⟩
    rwa [Function.update_of_ne]
    rintro rfl
    rw [before] at owes
    exact owes

theorem Ledger.step (h : Ledger Deletes stages rule? job?) (own : Deletes i)
    (saw : ∀ a, (stages i).saw? = some a → a = true)
    (step : Step (stages i) rule? job? stage rule?' job?') :
    Ledger Deletes (Function.update stages i stage) rule?' job?' := by
  generalize before : stages i = was at step
  cases step with
  | waits =>
    rw [← before, Function.update_eq_self]
    exact h
  | refuses => exact h.looks before not_false
  | finds => exact h.looks before not_false
  | unschedules =>
    -- The deletion owes the job itself.
    refine ⟨fun there j owns beyond => ?_, fun gone => h.removed_update gone (by simp [before]),
      nofun, fun _ _ _ => owes_update own trivial⟩
    by_cases same : j = i
    · rw [same, Function.update_self]
      exact ⟨⟨_, rfl⟩, rfl⟩
    · rw [Function.update_of_ne same] at beyond ⊢
      exact ⟨(h.waits there j owns beyond).1, rfl⟩
  | removes =>
    have no_job : job? = none := (h.waits rfl i own (by rw [before]; trivial)).2
    refine ⟨nofun, fun _ => ⟨i, own, Function.update_self ..⟩, fun _ some_job => ?_,
      fun _ _ several => ?_⟩
    · rw [no_job] at some_job
      cases some_job
    -- Another one that took out the job waits to remove the row too.
    · have same : Stage.removed.IsBeyond ↔ (stages i).IsBeyond := by
        rw [before]
        exact Iff.rfl
      obtain ⟨j, other, owns, beyond⟩ := ((several_update same).mp several).another i
      obtain ⟨⟨a, pending⟩, -⟩ := h.waits rfl j owns beyond
      refine ⟨j, owns, ?_⟩
      rw [Function.update_of_ne other, pending]
      trivial
  | @misses a =>
    have same : (Stage.failed a).IsBeyond ↔ (stages i).IsBeyond := by
      rw [before]
      exact Iff.rfl
    exact ⟨nofun, fun gone => h.removed_update gone (by simp [before]),
      fun gone some_job => (several_update same).mpr (h.job gone some_job),
      fun _ _ _ => owes_update own trivial⟩
  | restores =>
    refine ⟨fun there => ?_, fun gone => h.removed_update gone (by simp [before]),
      fun gone _ => ?_, nofun⟩
    -- A deletion fails only when the row is gone.
    · obtain ⟨⟨a, pending⟩, -⟩ := h.waits there i own (by rw [before]; trivial)
      cases before.symm.trans pending
    · obtain ⟨j, owns, removed⟩ := h.removed gone
      have apart : i ≠ j := by
        rintro rfl
        cases before.symm.trans removed
      refine ⟨i, j, apart, ⟨own, ?_⟩, owns, ?_⟩
      · rw [Function.update_self]
        trivial
      · rw [Function.update_of_ne apart.symm, removed]
        trivial
  | settles => cases saw false (by rw [before]; rfl)

/-- The ledger of an active rule can be kept from the start. -/
theorem Interleaved.ledger (h : Interleaved Deletes rule₀ job₀ stages rule? job?) {rule : Rule}
    (there : rule₀ = some rule) (active : rule.active = true) :
    Ledger Deletes stages rule? job? := by
  subst there
  have seen : ∀ found, some rule = some found → found.active = true := by
    rintro _ ⟨⟩
    exact active
  induction h with
  | start => exact ⟨fun _ _ _ => False.elim, nofun, nofun, nofun⟩
  | step before own step ih => exact ih.step own ((before.informed seen).saw _ own) step

theorem Stage.not_owes_of_isOver (ended : stage.IsOver) : ¬stage.Owes := by
  cases stage <;> simp_all [Stage.IsOver, Stage.Owes]

/-- When all deletions of an active rule are over, there is a job without a row just if several of
them took out the job. -/
theorem Ledger.orphaned_iff (h : Ledger Deletes stages rule? job?)
    (ended : ∀ i, Deletes i → (stages i).IsOver) :
    rule? = none ∧ job?.isSome = true ↔ Several Deletes stages := by
  refine ⟨fun ⟨gone, some_job⟩ => h.job gone some_job, fun several => ?_⟩
  have gone : rule? = none := by
    obtain ⟨i, -, -, ⟨owns, beyond⟩, -⟩ := several
    by_contra there
    obtain ⟨⟨a, pending⟩, -⟩ := h.waits (Option.isSome_iff_ne_none.mpr there) i owns beyond
    have past := ended i owns
    rw [pending] at past
    exact past
  refine ⟨gone, ?_⟩
  cases left : job? with
  | some job => rfl
  | none =>
    obtain ⟨i, owns, owes⟩ := h.owed gone left several
    exact absurd owes (Stage.not_owes_of_isOver (ended i owns))

/-- The rule has no job, or it has a row, and no deletion has taken out the job. -/
def Untouched (Deletes : Nat → Prop) (stages : Nat → Stage) (rule? : Option Rule)
    (job? : Option Job) : Prop :=
  job? = none ∨ rule?.isSome = true ∧ ∀ i, Deletes i → ¬(stages i).IsBeyond

theorem Untouched.looks (h : Untouched Deletes stages rule? job?) (before : stages i = .asked)
    (next : ¬stage.IsBeyond) : Untouched Deletes (Function.update stages i stage) rule? job? := by
  have same := isBeyond_of_asked before next
  exact h.imp_right fun ⟨there, untaken⟩ =>
    ⟨there, fun j owns beyond => untaken j owns ((isBeyond_update same j).mp beyond)⟩

theorem Untouched.job_eq_none (h : Untouched Deletes stages rule? job?) (gone : rule? = none) :
    job? = none := by
  refine h.resolve_right fun ⟨there, _⟩ => ?_
  rw [gone] at there
  cases there

theorem Untouched.no_job (h : Untouched Deletes stages rule? job?) (own : Deletes i)
    (beyond : (stages i).IsBeyond) : job? = none :=
  h.resolve_right fun ⟨_, untaken⟩ => untaken i own beyond

/-- A rule that is not active gets no job back. Neither does one that was not there. -/
theorem Interleaved.untouched (h : Interleaved Deletes rule₀ job₀ stages rule? job?)
    (inactive : ∀ rule, rule₀ = some rule → rule.active = false)
    (owned : rule₀ = none → job₀ = none) : Untouched Deletes stages rule? job? := by
  induction h with
  | start =>
    cases rule₀ with
    | none => exact .inl (owned rfl)
    | some rule => exact .inr ⟨rfl, fun _ _ => not_false⟩
  | @step stages rule? _ job? _ i stage before own step ih =>
    have saw := (before.informed inactive).saw i own
    generalize was : stages i = at_stage at step saw
    cases step with
    | waits =>
      rw [← was, Function.update_eq_self]
      exact ih
    | refuses => exact ih.looks was not_false
    | finds => exact ih.looks was not_false
    | unschedules => exact .inl rfl
    | removes => exact .inl (ih.no_job own (by rw [was]; trivial))
    | misses => exact .inl (ih.no_job own (by rw [was]; trivial))
    | restores => cases saw true rfl
    | settles => exact .inl rfl

end Deletion

/-! ## Deletions in turns -/

namespace Clients

variable {k : Clients} {i j : Nat} {turns : List Nat}

/-- A change is the deletion of a rule. -/
def Deletes (k : Clients) (setup : Setup) (id : RuleId) (i : Nat) : Prop :=
  k.calls[i]? = some ((Mutation.delete id).program setup)

/-- In one of the turns a change takes out the job of a rule. A deletion does so when it gets past
its look at the rows. -/
def Unschedules (k : Clients) (turns : List Nat) (id : RuleId) (i : Nat) : Prop :=
  ∃ made, made ++ [i] <+: turns ∧ (k.run made).request? i = some (.removeJob id)

/-- A turn in which a request is made carries it out, and the change goes on with the answer. -/
theorem run_append_of_request? (asked : (k.run turns).request? i = some r) :
    ∃ next : r.Answer → Program (Option Failure),
      (k.run turns).calls[i]? = some (.ask r next) ∧
      k.run (turns ++ [i]) = ⟨((k.run turns).state.perform r).2,
        (k.run turns).calls.set i (next ((k.run turns).state.perform r).1)⟩ := by
  obtain ⟨next, left, free⟩ := request?_eq_some.mp asked
  refine ⟨next, left, ?_⟩
  rw [run_append_singleton]
  simp [step, left, free]

theorem step_of_request?_eq_none (h : k.request? i = none) : k.step i = k := by
  unfold request? at h
  unfold step
  split
  · next left =>
    rw [left] at h
    dsimp only at h
    split at h
    · next waits => exact if_pos waits
    · cases h
  · rfl

theorem unschedules_append_singleton : k.Unschedules (turns ++ [j]) id i ↔
    k.Unschedules turns id i ∨ j = i ∧ (k.run turns).request? i = some (.removeJob id) := by
  simp only [Unschedules, List.prefix_concat_iff]
  constructor
  · rintro ⟨made, whole | earlier, asked⟩
    · obtain ⟨rfl, last⟩ := List.append_inj' whole rfl
      exact .inr ⟨(List.singleton_inj.mp last).symm, asked⟩
    · exact .inl ⟨made, earlier, asked⟩
  · rintro (⟨made, earlier, asked⟩ | ⟨rfl, asked⟩)
    · exact ⟨made, .inr earlier, asked⟩
    · exact ⟨turns, .inl rfl, asked⟩

/-- How far the deletions of a rule have come after some turns. -/
structure Deleting (k : Clients) (setup : Setup) (id : RuleId) (turns : List Nat)
    (stages : Nat → Stage) : Prop where
  obliging : Obliging (k.run turns).state
  interleaved : Interleaved (k.Deletes setup id) (k.state.catalog.rule? id)
    (k.state.board.job? id) stages ((k.run turns).state.catalog.rule? id)
    ((k.run turns).state.board.job? id)
  own : ∀ i, k.Deletes setup id i → ∃ rest, (k.run turns).calls[i]? = some rest ∧
    rest.Follows (.deleting id) (stages i) fun _ stage => stage.IsOver
  beyond : ∀ i, k.Deletes setup id i → ((stages i).IsBeyond ↔ k.Unschedules turns id i)
  others : ∀ i, ¬k.Deletes setup id i → ∀ rest, (k.run turns).calls[i]? = some rest →
    rest.Asks fun r => ¬r.Concerns id

section Turn

variable {stages : Nat → Stage}

/-- Nothing is done in the turn of a change that waits or is over. -/
theorem Deleting.of_idle (h : k.Deleting setup id turns stages)
    (idle : (k.run turns).request? j = none) : k.Deleting setup id (turns ++ [j]) stages := by
  have stays : k.run (turns ++ [j]) = k.run turns := by
    rw [run_append_singleton, step_of_request?_eq_none idle]
  constructor
  · rw [stays]
    exact h.obliging
  · rw [stays]
    exact h.interleaved
  · rw [stays]
    exact h.own
  · intro i deletes
    rw [h.beyond i deletes, unschedules_append_singleton, or_iff_left]
    rintro ⟨rfl, asked⟩
    cases idle.symm.trans asked
  · rw [stays]
    exact h.others

/-- In the turn of another change nothing is done to the rule. -/
theorem Deleting.of_other (h : k.Deleting setup id turns stages) (other : ¬k.Deletes setup id j)
    (asked : (k.run turns).request? j = some r) :
    ∃ stages', k.Deleting setup id (turns ++ [j]) stages' := by
  obtain ⟨next, left, stepped⟩ := run_append_of_request? asked
  have asks := Program.asks_ask.mp (h.others j other _ left)
  have listed : j < (k.run turns).calls.length := (List.getElem?_eq_some_iff.mp left).1
  have apart : ∀ {i}, k.Deletes setup id i → j ≠ i := by
    rintro i deletes rfl
    exact other deletes
  refine ⟨stages, ?_⟩
  constructor
  · rw [stepped]
    exact h.obliging.perform r
  · rw [stepped, State.perform_rule? asks.1, State.perform_job? asks.1]
    exact h.interleaved
  · intro i deletes
    rw [stepped, List.getElem?_set_ne (apart deletes)]
    exact h.own i deletes
  · intro i deletes
    rw [h.beyond i deletes, unschedules_append_singleton, or_iff_left]
    exact fun own => apart deletes own.1
  · intro i others rest
    rw [stepped]
    by_cases same : j = i
    · subst same
      rw [List.getElem?_set_self listed]
      rintro ⟨⟩
      exact asks.2 _
    · rw [List.getElem?_set_ne same]
      exact h.others i others rest

/-- In its own turn a deletion goes on from its stage. -/
theorem Deleting.of_own (h : k.Deleting setup id turns stages) (own : k.Deletes setup id j)
    (asked : (k.run turns).request? j = some r) :
    ∃ stages', k.Deleting setup id (turns ++ [j]) stages' := by
  obtain ⟨next, left, stepped⟩ := run_append_of_request? asked
  obtain ⟨rest, left', follows⟩ := h.own j own
  obtain rfl : Program.ask r next = rest := Option.some.inj (left.symm.trans left')
  obtain ⟨admitted, goes_on⟩ := Program.follows_ask.mp follows
  obtain ⟨stage, moves⟩ := admitted ((k.run turns).state.perform r).1
  have listed : j < (k.run turns).calls.length := (List.getElem?_eq_some_iff.mp left).1
  refine ⟨Function.update stages j stage, ?_⟩
  constructor
  · rw [stepped]
    exact h.obliging.perform r
  · rw [stepped]
    exact h.interleaved.step own (moves.step h.obliging)
  · intro i deletes
    rw [stepped]
    by_cases same : j = i
    · subst same
      rw [List.getElem?_set_self listed, Function.update_self]
      exact ⟨_, rfl, goes_on _ _ moves⟩
    · rw [List.getElem?_set_ne same, Function.update_of_ne (Ne.symm same)]
      exact h.own i deletes
  · intro i deletes
    rw [unschedules_append_singleton, ← h.beyond i deletes]
    by_cases same : j = i
    · subst same
      rw [Function.update_self, moves.isBeyond_iff, asked, Option.some.injEq]
      exact or_congr_right (and_iff_right rfl).symm
    · rw [Function.update_of_ne (Ne.symm same), or_iff_left]
      exact fun own => same own.1
  · intro i others rest
    have same : j ≠ i := by
      rintro rfl
      exact others own
    rw [stepped, List.getElem?_set_ne same]
    exact h.others i others rest

end Turn

/-- All turns that deletions of a rule take are steps through their stages. -/
theorem deleting (obliging : Obliging k.state)
    (others : ∀ i, ¬k.Deletes setup id i → ∀ call, k.calls[i]? = some call →
      call.Asks fun r => ¬r.Concerns id) (turns : List Nat) :
    ∃ stages, k.Deleting setup id turns stages := by
  induction turns using List.reverseRecOn with
  | nil =>
    refine ⟨fun _ => .asked, obliging, .start, fun i deletes => ?_, fun i _ => ?_, others⟩
    · exact ⟨_, deletes, Mutation.delete_follows setup id⟩
    · refine iff_of_false not_false ?_
      rintro ⟨made, earlier, -⟩
      simp at earlier
  | append_singleton turns j ih =>
    obtain ⟨stages, h⟩ := ih
    cases asked : (k.run turns).request? j with
    | none => exact ⟨stages, h.of_idle asked⟩
    | some r =>
      by_cases own : k.Deletes setup id j
      · exact h.of_own own asked
      · exact h.of_other own asked

namespace Deleting

variable {stages : Nat → Stage}

/-- A deletion is over at its last stage. -/
theorem isOver (h : k.Deleting setup id turns stages)
    (ended : ∀ call ∈ (k.run turns).calls, ∃ result, call = .done result)
    (deletes : k.Deletes setup id i) : (stages i).IsOver := by
  obtain ⟨rest, left, follows⟩ := h.own i deletes
  obtain ⟨result, rfl⟩ := ended rest (List.mem_of_getElem? left)
  exact (Program.follows_pure result).mp follows

theorem several_iff (h : k.Deleting setup id turns stages) :
    Several (k.Deletes setup id) stages ↔
      ∃ i j, i ≠ j ∧ (k.Deletes setup id i ∧ k.Unschedules turns id i) ∧
        k.Deletes setup id j ∧ k.Unschedules turns id j := by
  refine exists₂_congr fun i j => and_congr_right fun _ => and_congr ?_ ?_
  · exact and_congr_right fun owns => h.beyond i owns
  · exact and_congr_right fun owns => h.beyond j owns

/-- When all is over, a rule without a row has no job just if it was not active or no two deletions
of it have taken out the job. -/
theorem no_job_iff (h : k.Deleting setup id turns stages)
    (ended : ∀ call ∈ (k.run turns).calls, ∃ result, call = .done result)
    (owned : k.state.catalog.rule? id = none → k.state.board.job? id = none) :
    ((k.run turns).state.catalog.rule? id = none → (k.run turns).state.board.job? id = none) ↔
      ∀ rule, k.state.catalog.rule? id = some rule → rule.active = true →
        ¬Several (k.Deletes setup id) stages := by
  by_cases active : ∃ rule, k.state.catalog.rule? id = some rule ∧ rule.active = true
  · obtain ⟨rule, there, active⟩ := active
    have ledger := h.interleaved.ledger there active
    rw [← ledger.orphaned_iff fun i owns => h.isOver ended owns, not_and,
      Bool.not_eq_true, Option.isSome_eq_false_iff, Option.isNone_iff_eq_none]
    exact ⟨fun clean _ _ _ => clean, fun clean => clean rule there active⟩
  · have inactive : ∀ rule, k.state.catalog.rule? id = some rule → rule.active = false :=
      fun rule there => Bool.eq_false_iff.mpr fun is_active => active ⟨rule, there, is_active⟩
    refine iff_of_true (h.interleaved.untouched inactive owned).job_eq_none ?_
    exact fun rule there is_active => absurd ⟨rule, there, is_active⟩ active

end Deleting

end Clients

/-- What a deletion asks for does not concern other rules. -/
theorem asks_of_follows_deleting {α : Type} {p : Program α} {stage : Stage} {other : RuleId}
    {post : α → Stage → Prop} (apart : id ≠ other) (h : p.Follows (.deleting id) stage post) :
    p.Asks fun r => ¬r.Concerns other := by
  induction p generalizing stage with
  | done result => exact Program.asks_pure result
  | ask r next ih =>
    obtain ⟨admitted, goes_on⟩ := Program.follows_ask.mp h
    refine Program.asks_ask.mpr ⟨fun concerned => ?_, fun answer => ?_⟩
    -- Any state gives an answer to the request.
    · obtain ⟨stage', moves⟩ := admitted (((({} : Setup).start (.still ⟨0, 0⟩) {}).perform r).1)
      exact apart (moves.concerns concerned)
    · obtain ⟨stage', moves⟩ := admitted answer
      exact ih answer (goes_on answer stage' moves)

theorem Catalog.rule?_eq_none {c : Catalog} : c.rule? id = none ↔ c.get? id = none :=
  Option.map_eq_none_iff

/-- Any deletions are made in turns, beside other programs that write no rows of rules and put no
jobs in place, where each row is under its identifier, nothing is refused without a reason, and
only rules with a row have jobs. When all of them are over, only rules with a row have jobs just if
no active rule has two deletions that got past their look at the rows. -/
theorem deletions_leave_no_job_iff {setup : Setup} {k : Clients} (obliging : Obliging k.state)
    (calls : ∀ call ∈ k.calls, (∃ id, call = (Mutation.delete id).program setup) ∨
      call.Asks Request.LeavesJobs)
    (owned : ∀ id, k.state.catalog.get? id = none → k.state.board.job? id = none)
    {turns : List Nat} (ended : ∀ call ∈ (k.run turns).calls, ∃ result, call = .done result) :
    (∀ id, (k.run turns).state.catalog.get? id = none →
        (k.run turns).state.board.job? id = none) ↔
      ∀ id e, k.state.catalog.get? id = some e → e.rule.active = true → ∀ i j,
        k.Unschedules turns id i → k.Unschedules turns id j → i = j := by
  have others : ∀ id i, ¬k.Deletes setup id i → ∀ call, k.calls[i]? = some call →
      call.Asks fun r => ¬r.Concerns id := by
    intro id i other call left
    rcases calls call (List.mem_of_getElem? left) with ⟨deleted, rfl⟩ | quiet
    · refine asks_of_follows_deleting ?_ (Mutation.delete_follows setup deleted)
      rintro rfl
      exact other left
    · exact quiet.mono fun r leaves => leaves id
  -- Only deletions of a rule take out its job.
  have deletes : ∀ id i, k.Unschedules turns id i → k.Deletes setup id i := by
    rintro id i ⟨made, -, asked⟩
    by_contra other
    obtain ⟨stages, h⟩ := Clients.deleting obliging (others id) made
    obtain ⟨next, left, -⟩ := Clients.request?_eq_some.mp asked
    exact (Program.asks_ask.mp (h.others i other _ left)).1 rfl
  refine forall_congr' fun id => ?_
  obtain ⟨stages, h⟩ := Clients.deleting obliging (others id) turns
  have single : ¬Several (k.Deletes setup id) stages ↔
      ∀ i j, k.Unschedules turns id i → k.Unschedules turns id j → i = j := by
    rw [h.several_iff]
    constructor
    · intro untaken i j first second
      by_contra differ
      exact untaken ⟨i, j, differ, ⟨deletes id i first, first⟩, deletes id j second, second⟩
    · rintro same ⟨i, j, differ, first, second⟩
      exact differ (same i j first.2 second.2)
  have owned' : k.state.catalog.rule? id = none → k.state.board.job? id = none :=
    fun gone => owned id (Catalog.rule?_eq_none.mp gone)
  rw [← Catalog.rule?_eq_none, h.no_job_iff ended owned', single]
  constructor
  · exact fun clean e found active => clean e.rule (by rw [Catalog.rule?, found]; rfl) active
  · intro clean rule there active
    obtain ⟨e, found, rfl⟩ := Option.map_eq_some_iff.mp there
    exact clean e found active

/-- The result of a change that is over. -/
private def resultOf : Program (Option Failure) → Option (Option Failure)
  | .done result => some result
  | .ask .. => none

/-- The state after a rule was created. -/
private def cardsStored : State :=
  Operation.apply {} (({} : Setup).start (.still ⟨0, 0⟩) {})
    (.create { name := "cards", conditions := [.of "transaction_type" "=" (.text "CARD")] })

/-- Two deletions of the rule are about to begin. -/
private def deletedTwice : Clients where
  state := cardsStored
  calls := List.replicate 2 ((Mutation.delete (RuleId.ofNat 1)).program {})

/-- The second deletion looks at the rows when the first one is over. -/
private def oneByOne : List Nat := List.replicate 7 0 ++ [1]

/-- Both deletions look at the rows and take out the job. Then the first one goes on to its end, and
the second one after it. -/
private def atOnce : List Nat := [0, 1, 0, 1] ++ List.replicate 5 0 ++ List.replicate 5 1

theorem deletions_leave_no_job_iff_one_by_one :
    (deletedTwice.run oneByOne).state.board.jobs.map Prod.fst = [] ∧
      ∀ id e, deletedTwice.state.catalog.get? id = some e → e.rule.active = true → ∀ i j,
        deletedTwice.Unschedules oneByOne id i → deletedTwice.Unschedules oneByOne id j →
          i = j := by
  have start : Obliging (({} : Setup).start (.still ⟨0, 0⟩) {}) :=
    ⟨Catalog.indexed_empty, rfl, rfl⟩
  have obliging : Obliging cardsStored :=
    Operation.apply_keeps Obliging (fun r _ h => h.perform r) (.create _) start
  have calls : ∀ call ∈ deletedTwice.calls,
      (∃ id, call = (Mutation.delete id).program {}) ∨ call.Asks Request.LeavesJobs :=
    fun call listed => .inl ⟨_, List.eq_of_mem_replicate listed⟩
  have owned : ∀ id, deletedTwice.state.catalog.get? id = none →
      deletedTwice.state.board.job? id = none := by
    intro id gone
    have jobs : deletedTwice.state.board.jobs.map Prod.fst = [RuleId.ofNat 1] := by
      decide +kernel
    have row : (deletedTwice.state.catalog.get? (RuleId.ofNat 1)).isSome = true := by
      decide +kernel
    rw [JobBoard.job?, Assoc.get?_eq_none, jobs, List.mem_singleton]
    intro own
    rw [← own, gone] at row
    cases row
  have results : (deletedTwice.run oneByOne).calls.map resultOf =
      [some none, some (some (.ruleNotFound (RuleId.ofNat 1)))] := by decide +kernel
  have ended : ∀ call ∈ (deletedTwice.run oneByOne).calls, ∃ result, call = .done result := by
    intro call listed
    have told : resultOf call ∈ (deletedTwice.run oneByOne).calls.map resultOf :=
      List.mem_map_of_mem listed
    cases call with
    | done result => exact ⟨result, rfl⟩
    | ask r next => simp [results, resultOf] at told
  have no_jobs : (deletedTwice.run oneByOne).state.board.jobs.map Prod.fst = [] := by
    decide +kernel
  have clean : ∀ id, (deletedTwice.run oneByOne).state.catalog.get? id = none →
      (deletedTwice.run oneByOne).state.board.job? id = none := by
    intro id _
    rw [JobBoard.job?, List.map_eq_nil_iff.mp no_jobs]
    rfl
  have single := deletions_leave_no_job_iff (k := deletedTwice) obliging calls owned ended
  exact ⟨no_jobs, single.mp clean⟩

theorem deletions_leave_job :
    deletedTwice.state.board.jobs.map Prod.fst = [RuleId.ofNat 1] ∧
      (deletedTwice.run atOnce).calls.map resultOf =
        [some none, some (some (.ruleNotFound (RuleId.ofNat 1)))] ∧
      (deletedTwice.run atOnce).state.catalog.get? (RuleId.ofNat 1) = none ∧
      ((deletedTwice.run atOnce).state.board.job? (RuleId.ofNat 1)).isSome = true :=
  ⟨by decide +kernel, by decide +kernel, by decide +kernel, by decide +kernel⟩

end Cohort
