import Cohort.Manager
import Cohort.Proofs.Engine.Combination
import Cohort.Proofs.Manager.Mutations
import Cohort.Proofs.Program.Protocol
import Cohort.Proofs.Run.Requests

/-!
# Tables that transactions stand behind

A user comes into a table only by a query, so there is a transaction of the user. Set operations
bring in nobody else, and transactions do not go away. So a query without tests selects everybody
in a table, and to narrow a table down by it is to leave the table as it is.

## Main definitions

* `Dataset.BackedBy` — a set of users each of whom has a transaction
* `Protocol.backing` — only such sets are written, if only such sets are read
* `Action.Backs`, `Program.Backs` — a program keeps to this protocol, whenever it begins

## Main results

* `Dataset.BackedBy.intersect_unfiltered` — narrowing down by a query without tests
* `computeComposite_backed` — what is combined is backed, if the operands are
* `dispatch_backs`, `manualRun_backs`, `recurringRun_backs`, `runPass_backs`, `deleteRule_backs` —
  runs, passes and deletions keep to the protocol
-/

namespace Cohort

open Cohort.Action

/-! ## Datasets -/

/-- Each user occurs once, the unknown one does not occur, and each has a transaction. -/
structure Dataset.BackedBy (d : Dataset) (ts : List Transaction) : Prop where
  isSet : d.IsSet
  backed : ∀ user ∈ d.users, ∃ t ∈ ts, t.user = user

namespace Dataset.BackedBy

variable {d : Dataset} {ds : List Dataset} {ts ts' : List Transaction} {q : Query}

theorem nil : BackedBy [] ts := ⟨isSet_nil, by simp [users]⟩

/-- More transactions stand behind a table all the same. -/
theorem mono (h : d.BackedBy ts) (more : ts ⊆ ts') : d.BackedBy ts' where
  isSet := h.isSet
  backed user listed := by
    obtain ⟨t, ht, same⟩ := h.backed user listed
    exact ⟨t, more ht, same⟩

/-- Whom a query selects has a transaction. -/
theorem of_query (q : Query) (ts : List Transaction) : (dropNull (q.evaluate ts)).BackedBy ts where
  isSet := q.isSet_dropNull_evaluate ts
  backed _ listed :=
    (Query.mem_users_evaluate.mp (mem_users_dropNull.mp listed).1).exists_mem

theorem intersect (h : d.BackedBy ts) (right : Dataset) : (d.intersect right).BackedBy ts where
  isSet := h.isSet.intersect right
  backed user listed := h.backed user (mem_users_intersect.mp listed).1

/-- A combination has no users but those of its operands. -/
theorem combine {operation : SetOperation} {combined : Dataset} (h : ∀ d ∈ ds, d.BackedBy ts)
    (result : Dataset.combine operation ds = .ok combined) : combined.BackedBy ts where
  isSet := IsSet.combine (fun d hd => (h d hd).isSet) result
  backed _ listed := by
    cases ds with
    | nil => cases result
    | cons first rest =>
      obtain ⟨combined', result', takes⟩ := (combine_users_and_rows operation).2.2.1 first rest
      obtain rfl : combined' = combined := Except.ok.inj (result'.symm.trans result)
      have taken := (takes _).mp listed
      cases operation with
      | union =>
        obtain ⟨d, hd, listed⟩ := taken
        exact (h d hd).backed _ listed
      | intersection => exact (h first List.mem_cons_self).backed _ (taken first List.mem_cons_self)
      | difference => exact (h first List.mem_cons_self).backed _ taken.1

/-- A query without tests selects everybody who is in the dataset. -/
theorem intersect_unfiltered (h : d.BackedBy ts) (unfiltered : q.isUnfiltered = true) :
    d.intersect (dropNull (q.evaluate ts)) = d := by
  have distinct := h.isSet.distinct
  rw [Dataset.intersect, firstRows_of_nodup _ distinct fun _ _ => List.not_mem_nil]
  apply List.filter_eq_self.mpr
  intro row hrow
  have listed : row.user ∈ d.users := List.mem_map_of_mem hrow
  rw [List.contains_iff_mem, mem_users_dropNull, Query.mem_users_evaluate,
    Query.selects_of_isUnfiltered unfiltered]
  refine ⟨h.backed _ listed, Option.isSome_iff_ne_none.mpr fun unknown => ?_⟩
  exact h.isSet.known (unknown ▸ listed)

end Dataset.BackedBy

/-! ## The protocol -/

/-- What is told of tables and of queries fits the transactions. -/
def Request.ShowsBacked (ts : List Transaction) : (r : Request) → r.Answer → Prop
  | .readTable _, .ok rows => rows.BackedBy ts
  | .endQuery q, .ok rows => rows = q.evaluate ts
  | _, _ => True

/-- The account has the transactions so far, which become more and never fewer. Only tables that
they stand behind are written. -/
def Protocol.backing : Protocol (List Transaction) where
  Admits ts r :=
    match r with
    | .writeTable _ rows => rows.BackedBy ts
    | _ => True
  Leads ts r answer ts' := ts ⊆ ts' ∧ r.ShowsBacked ts' answer

/-- The request writes no table. -/
def Request.writesNoTable : Request → Bool
  | .writeTable .. => false
  | _ => true

theorem Request.writesNoTable_of_ofReading {r : Request} (h : r.ofReading = true) :
    r.writesNoTable = true := by
  cases r <;> simp_all [ofReading, writesNoTable]

theorem Request.writesNoTable_of_ofBooks {r : Request} (h : r.ofBooks = true) :
    r.writesNoTable = true := by
  cases r <;> simp_all [ofBooks, writesNoTable]

theorem Request.writesNoTable_of_ofSchedule {r : Request} (h : r.ofSchedule = true) :
    r.writesNoTable = true := by
  cases r <;> simp_all [ofSchedule, writesNoTable]

theorem Protocol.backing_admits {r : Request} (h : r.writesNoTable = true)
    (ts : List Transaction) : backing.Admits ts r := by
  cases r with
  | writeTable => cases h
  | _ => trivial

variable {α β : Type} {setup : Setup} {r : Request} {ts : List Transaction} {id : RuleId}

/-- The program keeps to the protocol, whatever the account is at first. -/
def Program.Backs (p : Program α) : Prop := ∀ ts, p.Follows .backing ts fun _ _ => True

/-- The program keeps to the protocol, whatever the account is at first. -/
def Action.Backs (a : Action α) : Prop :=
  ∀ ts, a.Follows .backing ts (fun _ _ => True) fun _ => True

namespace Program

theorem backs_pure (v : α) : (pure v : Program α).Backs := fun _ => (follows_pure v).mpr trivial

theorem Backs.bind {p : Program α} {f : α → Program β} (h : p.Backs) (next : ∀ v, (f v).Backs) :
    (p >>= f).Backs :=
  fun ts => (h ts).bind fun v ts' _ => next v ts'

/-- What writes no table keeps to the protocol. -/
theorem Asks.backs {p : Program α} (asks : p.Asks fun r => r.writesNoTable = true) : p.Backs := by
  intro ts
  apply asks.follows (fun _ => True) _ trivial
  intro r ts' none_written _
  exact ⟨Protocol.backing_admits none_written ts', fun _ _ _ => trivial⟩

theorem backs_call (h : r.writesNoTable = true) : (call r).Backs := (asks_call h).backs

/-- Transactions are never lost sight of. -/
theorem Follows.grows {p : Program α} {post : α → List Transaction → Prop}
    (h : p.Follows .backing ts post) :
    p.Follows .backing ts fun a ts' => post a ts' ∧ ts ⊆ ts' := by
  induction p generalizing ts with
  | done a => exact (follows_pure a).mpr ⟨(follows_pure a).mp h, List.Subset.refl ts⟩
  | ask r next ih =>
    obtain ⟨admitted, rest⟩ := follows_ask.mp h
    refine follows_ask.mpr ⟨admitted, fun answer ts₁ leads => ?_⟩
    exact (ih answer (rest answer ts₁ leads)).mono fun a ts' ended =>
      ⟨ended.1, List.Subset.trans leads.1 ended.2⟩

end Program

namespace Action

theorem backs_pure (v : α) : (pure v : Action α).Backs := fun _ => (follows_pure v).mpr trivial

theorem backs_throw (e : Failure) : (throw e : Action α).Backs := fun _ =>
  (follows_throw e).mpr trivial

theorem Backs.bind {a : Action α} {f : α → Action β} (h : a.Backs) (next : ∀ v, (f v).Backs) :
    (a >>= f).Backs :=
  fun ts => Follows.bind (h ts) fun v ts' _ => next v ts'

theorem Backs.outcome {a : Action α} (h : a.Backs) : a.outcome.Backs := fun ts =>
  Follows.outcome (h ts) (fun _ _ _ => trivial) fun _ _ _ => trivial

theorem backs_of {p : Program α} (h : p.Backs) : (of p).Backs := fun ts =>
  follows_of.mpr (h ts)

theorem Asks.backs {a : Action α} (asks : a.Asks fun r => r.writesNoTable = true) : a.Backs := by
  intro ts
  apply asks.follows (fun _ => True) _ trivial
  intro r ts' none_written _
  exact ⟨Protocol.backing_admits none_written ts', fun _ _ _ => trivial⟩

theorem backs_call (h : r.writesNoTable = true) : (call r).Backs := (asks_call h).backs

theorem Follows.grows {a : Action α} {good : α → List Transaction → Prop}
    (h : a.Follows .backing ts good fun _ => True) :
    a.Follows .backing ts (fun v ts' => good v ts' ∧ ts ⊆ ts') fun _ => True := by
  refine (follows_check (p := a.outcome)).mpr ?_
  refine h.outcome_ok.grows.mono ?_
  rintro (e | v) ts' ⟨kept, more⟩
  · trivial
  · exact ⟨kept v rfl, more⟩

end Action

/-! ## What a run computes -/

theorem runQuery_backed (q : Query) (ts : List Transaction) :
    (runQuery q).Follows .backing ts fun result ts' => ∀ rows, result = .ok rows →
      rows = q.evaluate ts' := by
  refine Program.follows_call_bind.mpr ⟨trivial, fun _ ts₁ _ => ?_⟩
  refine Program.follows_call.mpr ⟨trivial, ?_⟩
  rintro answer ts₂ ⟨-, shows⟩ rows rfl
  exact shows

theorem computeBase_backed (q : Query) (ts : List Transaction) :
    (computeBase id q).Follows .backing ts (fun rows ts' => rows.BackedBy ts') fun _ => True := by
  unfold computeBase
  apply follows_of_bind.mpr
  apply (runQuery_backed q ts).mono
  intro result ts' told
  split
  · next rows =>
    obtain rfl := told rows rfl
    exact (follows_pure _).mpr (.of_query q ts')
  -- There is nobody in an empty table.
  · exact (follows_pure _).mpr .nil
  · exact (follows_pure _).mpr .nil
  · exact (follows_throw _).mpr trivial

theorem loadDependency_backed (dependency : RuleId) (ts : List Transaction) :
    (loadDependency id dependency).Follows .backing ts
      (fun loaded ts' => loaded.1.BackedBy ts') fun _ => True := by
  unfold loadDependency
  refine follows_call_bind.mpr ⟨trivial, fun row ts₁ _ => ?_⟩
  split
  · exact (follows_throw _).mpr trivial
  split
  · exact (follows_throw _).mpr trivial
  refine follows_call_bind.mpr ⟨trivial, ?_⟩
  rintro answer ts₂ ⟨-, shows⟩
  split
  · exact (follows_throw _).mpr trivial
  · exact (follows_pure _).mpr shows

theorem loadDependencies_backed (dependencies : List RuleId) (ts : List Transaction) :
    (loadDependencies id dependencies).Follows .backing ts
      (fun loaded ts' => ∀ d ∈ loaded.1, d.BackedBy ts') fun _ => True := by
  unfold loadDependencies
  -- The operands that are loaded already stay backed while the others are loaded.
  have loads : (dependencies.mapM (loadDependency id)).Follows .backing ts
      (fun (loaded : List (Dataset × Instant)) ts' => ∀ l ∈ loaded, l.1.BackedBy ts')
      fun _ => True := by
    refine follows_mapM (fun (loaded : List (Dataset × Instant)) _ ts =>
      ∀ l ∈ loaded, l.1.BackedBy ts) ?_ dependencies [] (by simp)
    intro loaded dependency rest ts backed
    apply Follows.mono (loadDependency_backed dependency ts).grows _ fun _ any => any
    rintro last ts' ⟨last_backed, more⟩ l hl
    rcases List.mem_append.mp hl with hl | hl
    · exact (backed l hl).mono more
    · obtain rfl := List.mem_singleton.mp hl
      exact last_backed
  refine Follows.bind loads fun loaded ts' backed => ?_
  split
  · exact (follows_throw _).mpr trivial
  · refine (follows_pure _).mpr fun d hd => ?_
    obtain ⟨l, hl, rfl⟩ := List.mem_map.mp hd
    exact backed l hl

/-- What is combined, and what is narrowed down, has no users but those of the operands. -/
theorem computeComposite_backed (dependencies : List RuleId) (operation : SetOperation)
    (residual : Option Query) (ts : List Transaction) :
    (computeComposite id dependencies operation residual).Follows .backing ts
      (fun computed ts' => computed.1.BackedBy ts') fun _ => True := by
  unfold computeComposite
  refine Follows.bind (loadDependencies_backed dependencies ts) ?_
  rintro ⟨operands, oldest⟩ ts₁ backed
  have combines : (orFail id (pure (Dataset.combine operation operands))).Follows .backing ts₁
      (fun combined ts₂ => combined.BackedBy ts₂) fun _ => True := by
    refine follows_check.mpr ((Program.follows_pure _).mpr ?_)
    cases result : Dataset.combine operation operands with
    | error cause => trivial
    | ok combined => exact .combine backed result
  refine Follows.bind combines fun combined ts₂ combined_backed => ?_
  split
  · exact (follows_pure _).mpr combined_backed
  · next q _ =>
    have narrows : (orFail id (runQuery q)).Backs :=
      (orFail_asks (runQuery_asks (fun _ => Request.writesNoTable_of_ofReading) q)).backs
    refine Follows.bind (Follows.grows (narrows ts₂)) ?_
    rintro narrowed ts₃ ⟨-, more⟩
    exact (follows_pure _).mpr ((combined_backed.mono more).intersect _)

/-! ## Runs -/

/-- A nested run keeps to the protocol. -/
def NestedRun.Backs (nested : NestedRun) : Prop :=
  ∀ running refreshed id, (nested running refreshed id).Backs

variable {nested : NestedRun} {running refreshed : List RuleId}

theorem refreshLocked_backs (backs : nested.Backs) {dependency : RuleId} {seen : Entry} :
    (refreshLocked nested running id dependency seen refreshed).Backs := by
  unfold refreshLocked
  refine (backs_call rfl).bind fun row => ?_
  split
  · exact backs_pure _
  split
  · exact backs_pure _
  refine (backs_of (backs running refreshed dependency).outcome).bind fun outcome => ?_
  split
  · exact backs_pure _
  · exact backs_throw _

theorem refreshDependency_backs (backs : nested.Backs) {now : Instant} {dependency : RuleId} :
    (refreshDependency nested running id now refreshed dependency).Backs := by
  unfold refreshDependency
  split
  · exact backs_pure _
  refine (backs_call rfl).bind fun row => ?_
  split
  · exact backs_pure _
  split
  · exact backs_pure _
  split
  · exact refreshLocked_backs backs
  refine (backs_call rfl).bind fun _ => ?_
  refine (backs_of (refreshLocked_backs backs).outcome).bind fun outcome => ?_
  exact (backs_call rfl).bind fun _ => (asks_check (Program.asks_pure _)).backs

theorem refreshDependencies_backs (backs : nested.Backs) (dependencies : List RuleId) :
    (refreshDependencies nested running id dependencies refreshed).Backs := by
  refine (backs_call rfl).bind fun now ts => ?_
  exact follows_foldlM (fun _ => True) dependencies
    (fun _ _ _ ts' _ => refreshDependency_backs backs ts') refreshed trivial

/-- Whatever the source of a segment is, its rows are backed. -/
theorem compute_backed (backs : nested.Backs) (e : Entry) (started : Instant)
    (ts : List Transaction) :
    (compute setup nested running refreshed e started).Follows .backing ts
      (fun computed ts' => computed.1.BackedBy ts') fun _ => True := by
  unfold compute
  split
  · next q _ =>
    refine Follows.bind (computeBase_backed q ts) fun rows ts' backed => ?_
    exact (follows_pure _).mpr backed
  · next dependencies operation residual _ =>
    have composite : ∀ (refreshed : List RuleId) (ts : List Transaction),
        (computeComposite e.id dependencies operation residual >>= fun result =>
          pure (result.1, result.2, refreshed) : Action (Dataset × Instant × List RuleId)).Follows
            .backing ts (fun computed ts' => computed.1.BackedBy ts') fun _ => True := by
      intro refreshed ts
      refine Follows.bind (computeComposite_backed dependencies operation residual ts) ?_
      exact fun result ts' backed => (follows_pure _).mpr backed
    split
    · exact Follows.bind (refreshDependencies_backs backs dependencies ts)
        fun refreshed ts' _ => composite refreshed ts'
    · exact composite refreshed ts

/-- Rows are written as they were computed, with nothing in between. -/
theorem materialize_backs (backs : nested.Backs) :
    (materialize setup nested running refreshed id).Backs := by
  refine (backs_call rfl).bind fun row => ?_
  split
  · exact backs_throw _
  next e =>
  refine (backs_call rfl).bind fun started ts => ?_
  refine Follows.bind (compute_backed backs e started ts) ?_
  rintro ⟨rows, asOf, refreshed⟩ ts' backed
  have written : (orFail id (Program.call (.writeTable e.segment.table rows))).Follows .backing ts'
      (fun _ _ => True) fun _ => True := by
    refine follows_check.mpr (Program.follows_call_bind.mpr ⟨backed, fun answer ts₁ _ => ?_⟩)
    refine (Program.follows_pure _).mpr ?_
    cases answer <;> trivial
  refine Follows.bind written fun count ts₁ _ => ?_
  have books : (Action.call .now >>= fun finished =>
      writeMetadata id ⟨count, finished, asOf⟩ (setup.running.attempts - 1) >>= fun _ =>
        pure (count, refreshed) : Action (Nat × List RuleId)).Backs :=
    (backs_call rfl).bind fun finished =>
      Backs.bind (writeMetadata_asks (by rfl) _).backs fun _ => backs_pure _
  exact books ts₁

/-- However deep a run goes, it writes only what transactions stand behind. -/
theorem runRule_backs (depth : Nat) : (runRule setup depth).Backs := by
  induction depth with
  | zero => exact fun _ _ _ => backs_throw _
  | succ depth ih =>
    intro running refreshed id
    rw [runRule, runWith]
    split
    · exact backs_throw _
    refine (backs_call rfl).bind fun _ => ?_
    refine (backs_of (materialize_backs ih).outcome).bind fun outcome => ?_
    refine (backs_call rfl).bind fun _ => ?_
    exact Backs.bind (asks_check (Program.asks_pure _)).backs fun _ => backs_pure _

theorem execute_backs (id : RuleId) : (execute setup id).Backs :=
  Backs.bind (runRule_backs _ [] [] id) fun _ => backs_pure _

/-! ## Runs by themselves, passes and deletions -/

theorem dispatch_backs (id : RuleId) (generation : Option Nat) :
    (dispatch setup id generation).Backs := by
  have run : (executeLocked setup id).Backs := by
    refine (execute_backs id).outcome.bind fun result => ?_
    refine (Program.backs_call rfl).bind fun _ => (Program.backs_call rfl).bind fun _ => ?_
    exact (Program.backs_call rfl).bind fun _ => Program.backs_pure _
  refine (Program.backs_call rfl).bind fun _ => (Program.backs_call rfl).bind fun _ => ?_
  split
  · exact (Program.backs_call rfl).bind fun _ => run
  · exact run

theorem manualRun_backs (run : ManualRun) : (manualRun setup run).Backs := by
  refine (dispatch_backs run.rule none).bind fun result => ?_
  split
  · refine (Program.backs_call rfl).bind fun now => (Program.backs_call rfl).bind fun row => ?_
    exact (Program.backs_call rfl).bind fun _ => Program.backs_call rfl
  · exact Program.backs_call rfl

theorem complete_backs (id : RuleId) (generation : Option Nat) (schedule : Schedule)
    (previous : Instant) (result : Except Failure Nat) :
    (complete setup id generation schedule previous result).Backs :=
  (complete_asks setup (fun _ => Request.writesNoTable_of_ofBooks) ..).backs

theorem recurringRun_backs (id : RuleId) (generation : Nat) (timer : Instant) :
    (recurringRun setup id generation timer).Backs := by
  unfold recurringRun
  refine (Program.backs_call rfl).bind fun row => ?_
  split
  · exact Program.backs_call rfl
  refine (Program.backs_call rfl).bind fun now => ?_
  split
  · exact Program.backs_call rfl
  refine (dispatch_backs _ _).bind fun result => (complete_backs _ _ _ _ _).bind fun next => ?_
  split
  · exact Program.backs_call rfl
  · exact Program.backs_pure _

theorem passOver_backs (began : Instant) (entries : List Entry) (report : PassReport) :
    (passOver setup began entries report).Backs := by
  induction entries generalizing report with
  | nil => exact Program.backs_pure _
  | cons e rest ih =>
    refine (Program.backs_call rfl).bind fun generation => ?_
    refine (dispatch_backs _ _).bind fun result => (complete_backs _ _ _ _ _).bind fun next => ?_
    split
    · exact Program.backs_pure _
    · exact ih _

theorem runPass_backs : (runPass setup).Backs :=
  (Program.backs_call rfl).bind fun _ => (Program.backs_call rfl).bind fun _ => passOver_backs _ _ _

/-- A deletion writes no table at all. -/
theorem deleteRule_backs (id : RuleId) : (deleteRule setup id).Backs := by
  unfold deleteRule deleteLocked
  refine (backs_call rfl).bind fun rows => ?_
  split
  · exact backs_throw _
  dsimp only
  split
  · exact backs_throw _
  refine (backs_call rfl).bind fun _ => (backs_call rfl).bind fun _ => ?_
  refine Backs.bind (backs_of (Backs.outcome ?_)) fun outcome => ?_
  · refine (backs_call rfl).bind fun dropped => ?_
    split
    · exact backs_throw _
    · exact (asks_check (Program.asks_call (by rfl))).backs
  · split
    · have restored : ∀ rule, (schedule setup.whileWaiting rule).Backs := fun _ =>
        (schedule_asks (fun _ => Request.writesNoTable_of_ofSchedule) _).backs
      refine (backs_of (restored _).outcome).bind fun _ => ?_
      exact (backs_call rfl).bind fun _ => backs_throw _
    · exact (backs_call rfl).bind fun _ => (backs_call rfl).bind fun _ => backs_pure _

end Cohort
