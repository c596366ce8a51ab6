import Cohort.Manager
import Cohort.Proofs.Manager.Mutations
import Cohort.Proofs.Program.Protocol
import Cohort.Proofs.Run.Requests

/-!
# Who may write a table

A run writes the table of a rule only after it has read the row of that rule under its lock, and
while it still has this lock. A deletion drops the table and takes out the row under the same lock.
This module follows one rule through a program: what is asked for is in order as long as the table
of the rule is written only by those who have read its row.

## Main definitions

* `Custody` — how far a program has come with a rule
* `Protocol.custody` — a table is written only under a lock under which the row was read
* `Custody.Reads` — the row may have been read meanwhile

## Main results

* `runRule_careful` — a run of any depth keeps to the protocol
* `dispatch_keeps`, `manualRun_keeps`, `recurringRun_keeps`, `runPass_keeps` — what begins without
  the lock keeps to it and ends without the lock
* `deleteRule_keeps` — a deletion that succeeds has dropped the table and taken out the row
-/

namespace Cohort

open Cohort.Action

variable {setup : Setup} {table : RuleId → String} {id a : RuleId} {r : Request} {α β : Type}

/-! ## The protocol -/

/-- How far a program has come with a rule. -/
inductive Custody where
  /-- The lock of the rule is not held. -/
  | apart
  /-- The lock is held. -/
  | locked
  /-- The lock is held, and the row was read under it. -/
  | read
  /-- The lock is held, and the table was dropped under it. -/
  | dropped
  /-- The table was dropped and the row taken out, both under the lock. -/
  | removed
  deriving DecidableEq

/-- How far a program has come with a rule after an answer. -/
def Custody.after (table : RuleId → String) (id : RuleId) (x : Custody) :
    (r : Request) → r.Answer → Custody
  | .lock a, _ | .lockNested a, _ => if a = id then .locked else x
  | .unlock a, _ => if a = id ∧ x ≠ .removed then .apart else x
  | .getRow a, row => if a = id ∧ x = .locked ∧ row.isSome then .read else x
  | .dropTable name, answer =>
    if name = table id ∧ x = .locked ∧ answer.isOk then .dropped else x
  | .removeRow a, answer => if a = id ∧ x = .dropped ∧ answer.isOk then .removed else x
  | _, _ => x

/-- The rows that are answered name their tables as said. -/
def Request.Tells (table : RuleId → String) : (r : Request) → r.Answer → Prop
  | .getRow a, row => ∀ e, row = some e → e.segment.table = table a
  | .listRows, rows => ∀ e ∈ rows, e.segment.table = table e.id
  | _, _ => True

/-- The table of a rule is written only under a lock under which its row was read. No row is added
or replaced. -/
def Protocol.custody (table : RuleId → String) (id : RuleId) : Protocol Custody where
  Admits x r :=
    match r with
    | .writeTable name _ => name = table id → x = .read
    | .insertRow _ | .replaceRow .. => False
    | _ => True
  Leads x r answer x' := x' = x.after table id r answer ∧ r.Tells table answer

/-- The row may have been read meanwhile, if its lock is held. -/
def Custody.Reads (x x' : Custody) : Prop := x' = x ∨ x = .locked ∧ x' = .read

namespace Custody.Reads

variable {x x' x'' : Custody}

theorem refl (x : Custody) : x.Reads x := .inl rfl

theorem trans (h : x.Reads x') (h' : x'.Reads x'') : x.Reads x'' := by
  rcases h with rfl | ⟨rfl, rfl⟩
  · exact h'
  · rcases h' with rfl | ⟨never, -⟩
    · exact .inr ⟨rfl, rfl⟩
    · cases never

/-- Without a lock that is held, nothing comes of it. -/
theorem eq_self (h : x.Reads x') (not_locked : x ≠ .locked) : x' = x :=
  h.resolve_right fun both => not_locked both.1

end Custody.Reads

/-- The request takes and gives back no lock, and it changes no table and no row but for what runs
leave behind. -/
def Request.keepsCustody : Request → Bool
  | .lock _ | .lockNested _ | .unlock _ | .dropTable _ | .removeRow _ | .writeTable .. |
    .insertRow _ | .replaceRow .. => false
  | _ => true

theorem Request.keepsCustody_of_ofReading (h : r.ofReading = true) : r.keepsCustody = true := by
  cases r <;> simp_all [ofReading, keepsCustody]

theorem Request.keepsCustody_of_ofBooks (h : r.ofBooks = true) : r.keepsCustody = true := by
  cases r <;> simp_all [ofBooks, keepsCustody]

theorem Request.keepsCustody_of_ofSchedule (h : r.ofSchedule = true) : r.keepsCustody = true := by
  cases r <;> simp_all [ofSchedule, keepsCustody]

theorem Protocol.custody_reads {x : Custody} (keeps : r.keepsCustody = true) :
    (custody table id).Admits x r ∧ ∀ answer, x.Reads (x.after table id r answer) := by
  cases r <;> simp only [Request.keepsCustody, Bool.false_eq_true] at keeps <;>
    refine ⟨trivial, fun answer => ?_⟩
  case getRow a =>
    rw [Custody.after]
    split
    · next read => exact .inr ⟨read.2.1, rfl⟩
    · exact .refl x
  all_goals exact .refl x

/-! ## Programs that only read the row -/

variable {x x' : Custody}

namespace Program

variable {f : r.Answer → Program β} {post : β → Custody → Prop}

/-- A program that begins without the lock goes on without it. -/
theorem follows_apart (keeps : r.keepsCustody = true)
    (next : ∀ answer, (f answer).Follows (.custody table id) .apart post) :
    (call r >>= f).Follows (.custody table id) .apart post := by
  have custody : (Protocol.custody table id).Admits .apart r ∧
      ∀ answer, Custody.apart.Reads (Custody.apart.after table id r answer) :=
    Protocol.custody_reads keeps
  refine follows_call_bind.mpr ⟨custody.1, ?_⟩
  rintro answer _ ⟨rfl, -⟩
  rw [(custody.2 answer).eq_self (by decide)]
  exact next answer

theorem Asks.follows_reads {p : Program α} (asks : p.Asks fun r => r.keepsCustody = true) :
    p.Follows (.custody table id) x fun _ => x.Reads := by
  refine asks.follows x.Reads ?_ (.refl x)
  rintro r x' keeps reads
  obtain ⟨admitted, more⟩ := Protocol.custody_reads keeps
  refine ⟨admitted, ?_⟩
  rintro answer _ ⟨rfl, -⟩
  exact reads.trans (more answer)

theorem Asks.follows_apart {p : Program α} (asks : p.Asks fun r => r.keepsCustody = true) :
    p.Follows (.custody table id) .apart fun _ x' => x' = .apart :=
  asks.follows_reads.mono fun _ _ reads => reads.eq_self (by decide)

end Program

namespace Action

variable {f : r.Answer → Action β}

/-- The program keeps to the protocol, and it does no more about the rule than to read its row. -/
abbrev OnlyReads (table : RuleId → String) (id : RuleId) (a : Action α) (x : Custody) : Prop :=
  a.Follows (.custody table id) x (fun _ => x.Reads) x.Reads

theorem Asks.onlyReads {a : Action α} (asks : a.Asks fun r => r.keepsCustody = true) :
    a.OnlyReads table id x := by
  refine follows_check.mpr (asks.outcome.follows_reads.mono ?_)
  rintro (e | v) x' reads
  · exact reads
  · exact reads

theorem OnlyReads.from {a : Action α} (reads : x.Reads x') (h : a.OnlyReads table id x') :
    a.Follows (.custody table id) x' (fun _ => x.Reads) x.Reads :=
  h.mono (fun _ _ more => reads.trans more) fun _ more => reads.trans more

theorem OnlyReads.bind {a : Action α} {f : α → Action β} (h : a.OnlyReads table id x)
    (next : ∀ v x', x.Reads x' → (f v).OnlyReads table id x') :
    (a >>= f).OnlyReads table id x :=
  Follows.bind h fun v x' reads => (next v x' reads).from reads

theorem OnlyReads.outcome_bind {a : Action α} {g : Except Failure α → Action β}
    (h : a.OnlyReads table id x)
    (next : ∀ result x', x.Reads x' → (g result).OnlyReads table id x') :
    (of a.outcome >>= g).OnlyReads table id x :=
  follows_of_bind.mpr (Follows.outcome h (fun v x' reads => (next (.ok v) x' reads).from reads)
    fun e x' reads => (next (.error e) x' reads).from reads)

theorem onlyReads_call_bind (keeps : r.keepsCustody = true)
    (next : ∀ answer x', x.Reads x' → (f answer).OnlyReads table id x') :
    (call r >>= f).OnlyReads table id x :=
  OnlyReads.bind (asks_call keeps).onlyReads next

theorem onlyReads_pure (v : α) : (pure v : Action α).OnlyReads table id x :=
  (follows_pure v).mpr (.refl x)

theorem onlyReads_throw (e : Failure) : (throw e : Action α).OnlyReads table id x :=
  (follows_throw e).mpr (.refl x)

end Action

/-! ## Nested runs -/

/-- The rule is locked just if it is among some rules, and nothing was dropped. -/
structure Custody.Fits (id : RuleId) (locked : List RuleId) (x : Custody) : Prop where
  held : id ∈ locked → x = .locked ∨ x = .read
  free : id ∉ locked → x = .apart

namespace Custody.Fits

variable {locked : List RuleId}

theorem reads (fits : x.Fits id locked) (reads : x.Reads x') : x'.Fits id locked := by
  rcases reads with rfl | ⟨rfl, rfl⟩
  · exact fits
  · refine ⟨fun _ => .inr rfl, fun apart => ?_⟩
    cases fits.free apart

theorem cons_of_mem (fits : x.Fits id locked) (ha : a ∈ locked) : x.Fits id (a :: locked) where
  held hid := fits.held ((List.mem_cons.mp hid).elim (fun same => same ▸ ha) fun hid => hid)
  free hid := fits.free fun listed => hid (List.mem_cons_of_mem _ listed)

/-- The lock of one more rule is taken. -/
theorem lockNested (fits : x.Fits id locked) (a : RuleId) :
    (x.after table id (.lockNested a) ()).Fits id (a :: locked) := by
  by_cases own : a = id
  · refine ⟨fun _ => .inl (if_pos own), fun apart => ?_⟩
    exact absurd (own ▸ List.mem_cons_self) apart
  · have same : x.after table id (.lockNested a) () = x := if_neg own
    rw [same]
    refine ⟨fun hid => fits.held ((List.mem_cons.mp hid).resolve_left (Ne.symm own)), fun hid => ?_⟩
    exact fits.free fun listed => hid (List.mem_cons_of_mem _ listed)

/-- A lock that was not held is taken and given back. -/
theorem unlock (fits : x.Fits id locked) (not_locked : a ∉ locked)
    (reads : (x.after table id (.lockNested a) ()).Reads x') :
    x.Reads (x'.after table id (.unlock a) ()) := by
  by_cases own : a = id
  · obtain rfl := fits.free (own ▸ not_locked)
    have locked : Custody.apart.after table id (.lockNested a) () = .locked := if_pos own
    rw [locked] at reads
    left
    rcases reads with rfl | ⟨-, rfl⟩ <;> simp [Custody.after, own]
  · have same : x.after table id (.lockNested a) () = x := if_neg own
    rw [same] at reads
    simpa [Custody.after, own] using reads

end Custody.Fits

/-- Under the locks of the runs in progress and its own, a nested run only reads. -/
def NestedRun.Careful (table : RuleId → String) (id : RuleId) (nested : NestedRun) : Prop :=
  ∀ (running refreshed : List RuleId) (a : RuleId) (x : Custody), x.Fits id (a :: running) →
    (nested running refreshed a).OnlyReads table id x

variable {nested : NestedRun} {running refreshed : List RuleId}

theorem refreshLocked_onlyReads {dependency : RuleId} {seen : Entry}
    (careful : nested.Careful table id) (fits : x.Fits id (dependency :: running)) :
    (refreshLocked nested running a dependency seen refreshed).OnlyReads table id x := by
  refine onlyReads_call_bind rfl fun row x₁ reads => ?_
  split
  · exact onlyReads_pure _
  split
  · exact onlyReads_pure _
  refine OnlyReads.outcome_bind (careful running refreshed dependency x₁ (fits.reads reads))
    fun outcome x₂ _ => ?_
  cases outcome with
  | ok v => exact onlyReads_pure _
  | error cause => exact onlyReads_throw _

theorem refreshDependency_onlyReads {dependency : RuleId} {now : Instant}
    (careful : nested.Careful table id) (fits : x.Fits id running) :
    (refreshDependency nested running a now refreshed dependency).OnlyReads table id x := by
  unfold refreshDependency
  split
  · exact onlyReads_pure _
  refine onlyReads_call_bind rfl fun row x₁ reads => ?_
  have fits₁ := fits.reads reads
  split
  · exact onlyReads_pure _
  next seen =>
  split
  · exact onlyReads_pure _
  by_cases member : dependency ∈ running
  · rw [if_pos (by simpa using member)]
    exact refreshLocked_onlyReads careful (fits₁.cons_of_mem member)
  · rw [if_neg (by simpa using member)]
    refine follows_call_bind.mpr ⟨trivial, ?_⟩
    rintro _ x₂ ⟨rfl, -⟩
    refine follows_of_bind.mpr (Follows.outcome
      (refreshLocked_onlyReads careful (fits₁.lockNested dependency)) ?_ ?_)
    all_goals
      intro result x₃ reads₃
      refine follows_call_bind.mpr ⟨trivial, ?_⟩
      rintro _ x₄ ⟨rfl, -⟩
      exact follows_check.mpr ((Program.follows_pure _).mpr (fits₁.unlock member reads₃))

theorem refreshDependencies_onlyReads (careful : nested.Careful table id)
    (fits : x.Fits id running) (dependencies : List RuleId) :
    (refreshDependencies nested running a dependencies refreshed).OnlyReads table id x := by
  refine onlyReads_call_bind rfl fun now x₁ reads => ?_
  refine Follows.mono (follows_foldlM (fun x' => x₁.Reads x') dependencies ?_ refreshed (.refl x₁))
    (fun _ _ more => more) fun _ more => more
  intro refreshed dependency _ x₂ more
  exact (refreshDependency_onlyReads careful ((fits.reads reads).reads more)).from more

theorem compute_onlyReads (careful : nested.Careful table id) (fits : x.Fits id running)
    (e : Entry) (started : Instant) :
    (compute setup nested running refreshed e started).OnlyReads table id x := by
  have keeps : ∀ r : Request, r.ofReading = true → r.keepsCustody = true :=
    fun _ => Request.keepsCustody_of_ofReading
  unfold compute
  split
  · exact (computeBase_asks keeps _).onlyReads.bind fun rows _ _ => onlyReads_pure _
  · next dependencies operation residual _ =>
    have composite : ∀ (refreshed : List RuleId) (x' : Custody),
        (computeComposite e.id dependencies operation residual >>= fun result =>
          pure (result.1, result.2, refreshed) :
            Action (Dataset × Instant × List RuleId)).OnlyReads table id x' :=
      fun refreshed x' => (computeComposite_asks keeps ..).onlyReads.bind fun result _ _ =>
        onlyReads_pure _
    split
    · exact (refreshDependencies_onlyReads careful fits dependencies).bind
        fun refreshed x' _ => composite refreshed x'
    · exact composite _ _

/-- The table is written after the row was read, if it is that of the rule. -/
theorem materialize_onlyReads (distinct : Function.Injective table)
    (careful : nested.Careful table id) (fits : x.Fits id running) (locked : a ∈ running) :
    (materialize setup nested running refreshed a).OnlyReads table id x := by
  refine follows_call_bind.mpr ⟨trivial, ?_⟩
  rintro row x₁ ⟨rfl, named⟩
  have reads : x.Reads (x.after table id (.getRow a) row) := (Protocol.custody_reads rfl).2 row
  split
  · exact (onlyReads_throw _).from reads
  · next e =>
    have own : a = id → x.after table id (.getRow a) (some e) = .read := by
      rintro rfl
      rcases fits.held locked with rfl | rfl <;> simp [Custody.after]
    refine OnlyReads.from reads ?_
    generalize x.after table id (.getRow a) (some e) = x₁ at own reads ⊢
    refine onlyReads_call_bind rfl fun started x₂ reads₂ => ?_
    refine (compute_onlyReads careful ((fits.reads reads).reads reads₂) e started).bind
      fun computed x₃ reads₃ => ?_
    -- The row says which table is written. If it is that of the rule, its lock is held.
    have written : (orFail a (Program.call (.writeTable e.segment.table computed.1))).OnlyReads
        table id x₃ := by
      refine follows_check.mpr (Program.follows_call_bind.mpr ⟨fun same => ?_, ?_⟩)
      · obtain rfl := own (distinct ((named e rfl).symm.trans same))
        obtain rfl := reads₂.eq_self (by decide)
        exact reads₃.eq_self (by decide)
      · rintro answer _ ⟨rfl, -⟩
        refine (Program.follows_pure _).mpr ?_
        cases answer <;> exact Custody.Reads.refl _
    refine written.bind fun count x₄ _ => ?_
    refine onlyReads_call_bind rfl fun finished x₅ _ => ?_
    have metadata : (writeMetadata a ⟨count, finished, computed.2.1⟩
        (setup.running.attempts - 1)).OnlyReads table id x₅ :=
      (writeMetadata_asks (by rfl) _).onlyReads
    exact metadata.bind fun _ _ _ => onlyReads_pure _

theorem runWith_careful (distinct : Function.Injective table) (careful : nested.Careful table id) :
    (runWith setup nested).Careful table id := by
  intro running refreshed a x fits
  unfold runWith
  split
  · exact onlyReads_throw _
  refine onlyReads_call_bind rfl fun _ x₁ reads => ?_
  refine OnlyReads.outcome_bind
    (materialize_onlyReads distinct careful (fits.reads reads) List.mem_cons_self)
    fun outcome x₂ _ => ?_
  refine onlyReads_call_bind rfl fun _ x₃ _ => ?_
  cases outcome with
  | ok v => exact onlyReads_pure _
  | error e => exact onlyReads_throw _

/-- However deep a run goes, it writes only what it may. -/
theorem runRule_careful (distinct : Function.Injective table) (depth : Nat) :
    (runRule setup depth).Careful table id := by
  induction depth with
  | zero => exact fun _ _ _ _ _ => onlyReads_throw _
  | succ depth ih => exact runWith_careful distinct ih

/-! ## What begins without the lock -/

/-- A run by itself takes the lock of its rule and gives it back. -/
theorem dispatch_keeps (distinct : Function.Injective table) (a : RuleId)
    (generation : Option Nat) :
    (dispatch setup a generation).Follows (.custody table id) .apart fun _ x => x = .apart := by
  have nothing_locked : Custody.apart.Fits id [] := ⟨nofun, fun _ => rfl⟩
  have executes : (execute setup a).OnlyReads table id
      (Custody.apart.after table id (.lockNested a) ()) :=
    (runRule_careful distinct _ [] [] a _ (nothing_locked.lockNested a)).bind
      fun _ _ _ => onlyReads_pure _
  have given_back : ∀ (result : Except Failure Nat) (x : Custody),
      (Custody.apart.after table id (.lockNested a) ()).Reads x →
      (giveBack a result).Follows (.custody table id) x fun _ x' => x' = .apart := by
    intro result x reads
    refine Program.follows_call_bind.mpr ⟨trivial, ?_⟩
    rintro _ _ ⟨rfl, -⟩
    rw [(nothing_locked.unlock List.not_mem_nil reads).eq_self (by decide)]
    refine Program.follows_apart rfl fun _ => Program.follows_apart rfl fun _ => ?_
    exact (Program.follows_pure _).mpr rfl
  have run : (executeLocked setup a).Follows (.custody table id)
      (Custody.apart.after table id (.lockNested a) ()) fun _ x => x = .apart :=
    Program.follows_bind.mpr (Follows.outcome executes (fun _ => given_back _)
      fun _ => given_back _)
  refine Program.follows_apart rfl fun _ => Program.follows_call_bind.mpr ⟨trivial, ?_⟩
  rintro _ _ ⟨rfl, -⟩
  change Program.Follows _ _ (Custody.apart.after table id (.lockNested a) ()) _
  cases generation with
  | none => exact run
  | some generation =>
    refine Program.follows_call_bind.mpr ⟨trivial, ?_⟩
    rintro _ _ ⟨rfl, -⟩
    exact run

theorem manualRun_keeps (distinct : Function.Injective table) (run : ManualRun) :
    (manualRun setup run).Follows (.custody table id) .apart fun _ x => x = .apart := by
  have close : (Program.call (.closeRun run.sequence)).Follows (.custody table id) .apart
      fun _ x => x = .apart := (Program.asks_call (by rfl)).follows_apart
  refine (dispatch_keeps distinct run.rule none).bind ?_
  rintro result _ rfl
  split
  · refine Program.follows_apart rfl fun now => Program.follows_apart rfl fun row => ?_
    exact Program.follows_apart rfl fun _ => close
  · exact close

theorem recurringRun_keeps (distinct : Function.Injective table) (a : RuleId) (generation : Nat)
    (timer : Instant) :
    (recurringRun setup a generation timer).Follows (.custody table id) .apart
      fun _ x => x = .apart := by
  have alone : ∀ r : Request, r.keepsCustody = true →
      (Program.call r).Follows (.custody table id) .apart fun _ x => x = .apart :=
    fun _ keeps => (Program.asks_call keeps).follows_apart
  refine Program.follows_apart rfl fun row => ?_
  cases row with
  | none => exact alone (.dropJob a generation) rfl
  | some e =>
    refine Program.follows_apart rfl fun now => ?_
    split
    · exact alone (.armJob a generation _) rfl
    refine (dispatch_keeps distinct a _).bind ?_
    rintro result _ rfl
    refine (complete_asks setup (fun _ => Request.keepsCustody_of_ofBooks) ..).follows_apart.bind ?_
    rintro next _ rfl
    cases next with
    | none => exact (Program.follows_pure _).mpr rfl
    | some next => exact alone (.armJob a generation next) rfl

theorem passOver_keeps (distinct : Function.Injective table) (began : Instant)
    (entries : List Entry) (report : PassReport) :
    (passOver setup began entries report).Follows (.custody table id) .apart
      fun _ x => x = .apart := by
  induction entries generalizing report with
  | nil => exact (Program.follows_pure _).mpr rfl
  | cons e rest ih =>
    refine Program.follows_apart rfl fun generation => ?_
    refine (dispatch_keeps distinct e.id generation).bind ?_
    rintro result _ rfl
    refine (complete_asks setup (fun _ => Request.keepsCustody_of_ofBooks) ..).follows_apart.bind ?_
    rintro next _ rfl
    cases next with
    | none => exact (Program.follows_pure _).mpr rfl
    | some next => exact ih _

theorem runPass_keeps (distinct : Function.Injective table) :
    (runPass setup).Follows (.custody table id) .apart fun _ x => x = .apart :=
  Program.follows_apart rfl fun _ => Program.follows_apart rfl fun _ => passOver_keeps distinct ..

/-! ## Deletions -/

/-- The table of a rule that is locked is dropped before its row is taken out. -/
theorem deleteLocked_keeps {current : Entry} (named : current.segment.table = table current.id) :
    (deleteLocked current).Follows (.custody table id)
      (Custody.apart.after table id (.lock current.id) ())
      (fun _ x => current.id = id → x = .removed) fun _ => True := by
  refine follows_call_bind.mpr ⟨trivial, ?_⟩
  rintro dropped _ ⟨rfl, -⟩
  cases dropped with
  | error cause => exact (follows_throw _).mpr trivial
  | ok _ =>
    refine follows_check.mpr (Program.follows_call.mpr ⟨trivial, ?_⟩)
    rintro answer _ ⟨rfl, -⟩
    cases answer with
    | error failure => trivial
    | ok removed =>
      intro own
      simp [Custody.after, named, own, Except.isOk, Except.toBool]

/-- A deletion that succeeds has dropped the table of its rule and taken out its row, under one
lock. -/
theorem deleteRule_keeps (a : RuleId) :
    (deleteRule setup a).Follows (.custody table id) .apart
      (fun _ x => a = id → x = .removed) fun _ => True := by
  refine follows_call_bind.mpr ⟨trivial, ?_⟩
  rintro rows _ ⟨rfl, named⟩
  split
  · exact (follows_throw _).mpr trivial
  next current found =>
  obtain rfl : current.id = a := by simpa using List.find?_some found
  have own_table := named current (List.mem_of_find?_eq_some found)
  dsimp only
  split
  · exact (follows_throw _).mpr trivial
  refine follows_call_bind.mpr ⟨trivial, ?_⟩
  rintro _ _ ⟨rfl, -⟩
  refine follows_call_bind.mpr ⟨trivial, ?_⟩
  rintro _ _ ⟨rfl, -⟩
  change Follows _ _ (Custody.apart.after table id (.lock current.id) ()) _ _
  refine follows_of_bind.mpr ((deleteLocked_keeps own_table).outcome ?_ ?_)
  · intro removed x gone
    refine follows_call_bind.mpr ⟨trivial, ?_⟩
    rintro _ _ ⟨rfl, -⟩
    refine follows_call_bind.mpr ⟨trivial, ?_⟩
    rintro _ _ ⟨rfl, -⟩
    refine (follows_pure _).mpr fun own => ?_
    simp [Custody.after, gone own]
  · intro failure x _
    have restored : (schedule setup.whileWaiting current.rule).OnlyReads table id x :=
      (schedule_asks (fun _ => Request.keepsCustody_of_ofSchedule) _).onlyReads
    have unlocks : ∀ x' : Custody, (call (.unlock current.id) >>= fun _ =>
        throw failure : Action Entry).Follows (.custody table id) x'
          (fun _ x => current.id = id → x = .removed) fun _ => True :=
      fun x' => follows_call_bind.mpr ⟨trivial, fun _ _ _ => (follows_throw _).mpr trivial⟩
    exact follows_of_bind.mpr (restored.outcome (fun _ x' _ => unlocks x') fun _ x' _ => unlocks x')

end Cohort
