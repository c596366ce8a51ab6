import Cohort.State

/-!
# Programs

Operations are programs that make requests to the state of a system, one after the
other, and go on with the answers. Each request is carried out at once; between two
requests other programs can make theirs. Run alone, a program is a function on states.

## Main definitions

* `Request`, `Request.Answer` — what a program can ask for
* `State.perform` — carries out a request
* `State.blocks` — a request has to wait
* `Program` — a program, and `Program.run`, which runs it alone
* `Action` — a program that can fail
-/

namespace Cohort

/-- What a program can ask for. -/
inductive Request where
  | allocateId
  | getRow (id : RuleId)
  | listRows
  | insertRow (entry : Entry)
  | replaceRow (entry : Entry) (expected : Nat)
  | removeRow (id : RuleId)
  | recordRefresh (id : RuleId) (refresh : Refresh)
  | recordRun (id : RuleId) (last next : Instant)
  | now
  | emit (event : Event)
  | beginQuery
  | endQuery (query : Query)
  | readTable (table : String)
  | writeTable (table : String) (rows : Dataset)
  | dropTable (table : String)
  | takeSlot
  | freeSlot
  /-- Locks the runs of a rule. A job that waits for this can be cancelled. -/
  | lock (id : RuleId)
  /-- Locks the runs of a rule from within a run, which cannot be cancelled. -/
  | lockNested (id : RuleId)
  | unlock (id : RuleId)
  /-- Waits for the end of a run that has been started. -/
  | join
  | installJob (id : RuleId) (nextRunAt : Instant) (timer : Option Instant)
  | removeJob (id : RuleId)
  | clearJobs
  | countJobs
  | jobGeneration (id : RuleId)
  | fireJob (id : RuleId) (generation : Nat)
  | finishJob (id : RuleId) (generation : Nat) (next : Instant)
  | armJob (id : RuleId) (generation : Nat) (timer : Instant)
  | dropJob (id : RuleId) (generation : Nat)
  | enqueueRun (id : RuleId) (schedule : Schedule)
  | closeRun (sequence : Nat)

/-- The type of the answer to a request. -/
@[reducible] def Request.Answer : Request → Type
  | .allocateId => RuleId
  | .getRow _ => Option Entry
  | .listRows => List Entry
  | .insertRow _ => Except Failure Entry
  | .replaceRow .. => Except Failure Entry
  | .removeRow _ => Except Failure Entry
  | .recordRefresh .. => Except Failure Unit
  | .recordRun .. => Except Failure Unit
  | .now => Instant
  | .endQuery _ => Except EngineFailure Dataset
  | .readTable _ => Except EngineFailure Dataset
  | .writeTable .. => Except EngineFailure Nat
  | .dropTable _ => Except EngineFailure Unit
  | .removeJob _ => Bool
  | .countJobs => Nat
  | .jobGeneration _ => Option Nat
  | .enqueueRun .. => Nat
  | _ => Unit

namespace State

/-- The catalogue replaces a row, unless it is told to find that someone else changed it. -/
def replaceRow (s : State) (e : Entry) (expected : Nat) : Except Failure Entry × State :=
  match s.faults.conflict.trip with
  | (true, fault) =>
    (.error (.versionConflict e.id expected (expected + 1)),
      { s with faults := { s.faults with conflict := fault } })
  | (false, fault) =>
    let (result, catalog) := s.catalog.replace e expected
    (result, { s with catalog, faults := { s.faults with conflict := fault } })

/-- The catalogue removes a row, unless it is told to fail. -/
def removeRow (s : State) (id : RuleId) : Except Failure Entry × State :=
  match s.faults.remove.trip with
  | (true, fault) =>
    (.error (.catalog .connectionReset), { s with faults := { s.faults with remove := fault } })
  | (false, fault) =>
    let (result, catalog) := s.catalog.remove id
    (result, { s with catalog, faults := { s.faults with remove := fault } })

/-- The catalogue writes down a refresh, unless it is told to fail. -/
def recordRefresh (s : State) (id : RuleId) (r : Refresh) : Except Failure Unit × State :=
  match s.faults.refresh.trip with
  | (true, fault) =>
    (.error (.catalog .connectionReset), { s with faults := { s.faults with refresh := fault } })
  | (false, fault) =>
    let (result, catalog) := s.catalog.recordRefresh id r
    (result, { s with catalog, faults := { s.faults with refresh := fault } })

/-- The catalogue writes down the times of a run, unless it is told to fail. -/
def recordRun (s : State) (id : RuleId) (last next : Instant) : Except Failure Unit × State :=
  match s.faults.run.trip with
  | (true, fault) =>
    (.error (.catalog .connectionReset), { s with faults := { s.faults with run := fault } })
  | (false, fault) =>
    let (result, catalog) := s.catalog.recordRun id last next
    (result, { s with catalog, faults := { s.faults with run := fault } })

/-- Carries out a request. -/
def perform (s : State) : (r : Request) → r.Answer × State
  | .allocateId => let (id, catalog) := s.catalog.allocate; (id, { s with catalog })
  | .getRow id => (s.catalog.get? id, s)
  | .listRows => (s.catalog.list, s)
  | .insertRow e => let (result, catalog) := s.catalog.insert e; (result, { s with catalog })
  | .replaceRow e expected => s.replaceRow e expected
  | .removeRow id => s.removeRow id
  | .recordRefresh id refresh => s.recordRefresh id refresh
  | .recordRun id last next => s.recordRun id last next
  | .now => let (t, clock) := s.clock.read; (t, { s with clock })
  | .emit event => ((), { s with log := s.log ++ [event] })
  | .beginQuery => ((), { s with engine := s.engine.beginQuery })
  | .endQuery q => let (result, engine) := s.engine.endQuery q; (result, { s with engine })
  | .readTable name => (s.engine.readTable name, s)
  | .writeTable name rows =>
    let (result, engine) := s.engine.writeTable name rows; (result, { s with engine })
  | .dropTable name => let (result, engine) := s.engine.dropTable name; (result, { s with engine })
  | .takeSlot => ((), { s with slots := s.slots - 1 })
  | .freeSlot => ((), { s with slots := s.slots + 1 })
  | .lock id => ((), { s with locks := id :: s.locks })
  | .lockNested id => ((), { s with locks := id :: s.locks })
  | .unlock id => ((), { s with locks := s.locks.erase id })
  | .join => ((), s)
  | .installJob id next timer => ((), { s with board := s.board.install id next timer })
  | .removeJob id => ((s.board.job? id).isSome, { s with board := s.board.remove id })
  | .clearJobs => ((), { s with board := s.board.clear })
  | .countJobs => (s.board.jobs.length, s)
  | .jobGeneration id => (s.board.generation? id, s)
  | .fireJob id generation => ((), { s with board := s.board.fire id generation })
  | .finishJob id generation next => ((), { s with board := s.board.finish id generation next })
  | .armJob id generation timer => ((), { s with board := s.board.arm id generation timer })
  | .dropJob id generation => ((), { s with board := s.board.drop id generation })
  | .enqueueRun id schedule =>
    let (sequence, board) := s.board.enqueue id schedule; (sequence, { s with board })
  | .closeRun sequence => ((), { s with board := s.board.close sequence })

/-- The request has to wait: for a lock that is held, or for a slot when all are taken. -/
def blocks (s : State) : Request → Bool
  | .lock id => s.locks.contains id
  | .lockNested id => s.locks.contains id
  | .takeSlot => s.slots == 0
  | _ => false

end State

/-- A program with a result. -/
inductive Program (α : Type) where
  | done (result : α)
  | ask (request : Request) (next : request.Answer → Program α)

namespace Program

variable {α β γ : Type}

/-- Goes on with the result of a program. -/
def bind : Program α → (α → Program β) → Program β
  | .done a, f => f a
  | .ask r next, f => .ask r fun answer => (next answer).bind f

instance : Monad Program where
  pure := .done
  bind := .bind

/-- Makes one request. -/
def call (r : Request) : Program r.Answer := .ask r .done

/-- Runs a program alone. -/
def run : Program α → State → α × State
  | .done a, s => (a, s)
  | .ask r next, s => (next (s.perform r).1).run (s.perform r).2

@[simp] theorem done_bind (a : α) (f : α → Program β) : (Program.done a >>= f) = f a := rfl

@[simp] theorem ask_bind (r : Request) (next : r.Answer → Program α) (f : α → Program β) :
    (Program.ask r next >>= f) = .ask r fun answer => next answer >>= f := rfl

theorem bind_done (p : Program α) : (p >>= Program.done) = p := by
  induction p with
  | done a => rfl
  | ask r next ih =>
    rw [ask_bind]
    congr 1
    funext answer
    exact ih answer

theorem bind_assoc (p : Program α) (f : α → Program β) (g : β → Program γ) :
    (p >>= f) >>= g = p >>= fun a => f a >>= g := by
  induction p with
  | done a => rfl
  | ask r next ih =>
    rw [ask_bind, ask_bind, ask_bind]
    congr 1
    funext answer
    exact ih answer

instance : LawfulMonad Program :=
  LawfulMonad.mk' Program bind_done (fun _ _ => rfl) bind_assoc

@[simp] theorem run_pure (a : α) (s : State) : (pure a : Program α).run s = (a, s) := rfl

@[simp] theorem run_call (r : Request) (s : State) : (call r).run s = s.perform r := rfl

@[simp] theorem run_bind (p : Program α) (f : α → Program β) (s : State) :
    (p >>= f).run s = (f (p.run s).1).run (p.run s).2 := by
  induction p generalizing s with
  | done a => rfl
  | ask r next ih => exact ih _ _

end Program

/-- A program that can fail. -/
abbrev Action := ExceptT Failure Program

namespace Action

variable {α : Type}

/-- A program that does not fail. -/
def of (p : Program α) : Action α := ExceptT.lift p

/-- Fails if the program says so. -/
def check (p : Program (Except Failure α)) : Action α := ExceptT.mk p

/-- The outcome of a program that can fail. -/
def outcome (a : Action α) : Program (Except Failure α) := ExceptT.run a

/-- Makes a request that cannot fail. -/
def call (r : Request) : Action r.Answer := of (Program.call r)

end Action

end Cohort
