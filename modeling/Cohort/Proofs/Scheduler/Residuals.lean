import Cohort.Proofs.Manager.Staleness
import Cohort.Proofs.Program.Among
import Cohort.Proofs.Run.Backing
import Cohort.Proofs.Scheduler.Pool

/-!
# Residual queries without tests

Where all conditions of a residual query were dropped, the query is not run: it would select
everybody. That nothing is lost by this is due to the tables, in which there is nobody without a
transaction. They are only written by runs, and transactions are only added, so this stays so
however runs, passes, deletions and changes of rules come in between one another.

## Main definitions

* `State.TablesBacked` — transactions stand behind all tables
* `State.OnlyGains` — transactions may have been added, and tables are as they were
* `computeInFull` — a combination for which the residual query is run in any case
* `Pool.Backed` — transactions stand behind all tables, and behind what errands work with

## Main results

* `Pool.Reachable.backed` — so it is in every pool that comes about
* `computeInFull_run` — run alone, both ways of combining give the same rows
* `skips_unfiltered_residual` — to skip a residual query without tests is to run it
-/

namespace Cohort

open Cohort.Action

variable {setup : Setup} {s s' s₀ : State} {r : Request} {ts : List Transaction} {q : Query}
  {id : RuleId} {dependencies : List RuleId} {operation : SetOperation}

/-! ## States -/

namespace State

/-- Transactions stand behind every table. -/
def TablesBacked (s : State) : Prop :=
  ∀ name rows, s.engine.table? name = some rows → rows.BackedBy s.engine.transactions

/-- Transactions may have been added, and tables are as they were. -/
structure OnlyGains (s s' : State) : Prop where
  transactions : s.engine.transactions ⊆ s'.engine.transactions
  tables : s'.engine.tables = s.engine.tables

/-- No transaction is taken away, and transactions stand behind the tables if they did before. -/
structure StaysBacked (s s' : State) : Prop where
  transactions : s.engine.transactions ⊆ s'.engine.transactions
  tables : s.TablesBacked → s'.TablesBacked

theorem perform_transactions (s : State) (r : Request) :
    (s.perform r).2.engine.transactions = s.engine.transactions := by
  by_cases rows : r.ofRows = true
  · obtain ⟨catalog, faults, same⟩ := s.perform_ofRows rows
    rw [same]
  · cases r <;> simp [Request.ofRows] at rows
    case writeTable name rows =>
      simp only [perform, Engine.writeTable]
      split <;> rfl
    case dropTable name =>
      simp only [perform, Engine.dropTable]
      split <;> rfl
    all_goals rfl

/-- A request that neither writes nor drops a table is such a change. -/
theorem perform_onlyGains (h : r.leavesTables = true) (s : State) :
    s.OnlyGains (s.perform r).2 where
  transactions := by rw [perform_transactions]; exact List.Subset.refl _
  tables := perform_tables h s

theorem OnlyGains.refl (s : State) : s.OnlyGains s := ⟨List.Subset.refl _, rfl⟩

theorem OnlyGains.trans {s'' : State} (h : s.OnlyGains s') (h' : s'.OnlyGains s'') :
    s.OnlyGains s'' :=
  ⟨List.Subset.trans h.transactions h'.transactions, h'.tables.trans h.tables⟩

theorem onlyGains_run {α : Type} {p : Program α} (asks : p.Asks fun r => r.leavesTables = true)
    (s : State) : s.OnlyGains (p.run s).2 :=
  asks.keeps (fun s' => s.OnlyGains s')
    (fun _ s' kept gains => gains.trans (perform_onlyGains kept s')) (.refl s)

/-- Creating a rule is such a change too. -/
theorem onlyGains_create (setup : Setup) (d : RuleDraft) (s : State) :
    s.OnlyGains (Operation.apply setup s (.create d)) :=
  onlyGains_run ((createRule_asks setup d).outcome.mono fun _ => Request.leavesTables_of_ofChange) s

/-- And so is changing one, whatever becomes of the change. -/
theorem onlyGains_update (setup : Setup) (id : RuleId) (patch : RulePatch) (s : State) :
    s.OnlyGains (Operation.apply setup s (.update id patch)) :=
  onlyGains_run
    ((updateRule_asks setup id patch).outcome.mono fun _ => Request.leavesTables_of_ofChange) s

theorem OnlyGains.staysBacked (h : s.OnlyGains s') : s.StaysBacked s' where
  transactions := h.transactions
  tables backed name rows there := by
    rw [Engine.table?, h.tables] at there
    exact (backed name rows there).mono h.transactions

/-- Whoever keeps to the protocol leaves tables that transactions stand behind. -/
theorem perform_staysBacked (known : ts ⊆ s.engine.transactions)
    (admitted : Protocol.backing.Admits ts r) : s.StaysBacked (s.perform r).2 := by
  by_cases kept : r.leavesTables = true
  · exact (perform_onlyGains kept s).staysBacked
  refine ⟨by rw [perform_transactions]; exact List.Subset.refl _, fun backed name rows there => ?_⟩
  rw [perform_transactions]
  cases r <;> simp [Request.leavesTables] at kept
  case writeTable written new =>
    simp only [perform, Engine.writeTable] at there
    split at there
    · exact backed name rows there
    · simp only [Engine.table?, Engine.putTable, Assoc.get?_put] at there
      split at there
      · obtain rfl := Option.some.inj there
        exact Dataset.BackedBy.mono admitted known
      · exact backed name rows there
  case dropTable dropped =>
    simp only [perform, Engine.dropTable] at there
    split at there
    · exact backed name rows there
    · simp only [Engine.table?, Assoc.get?_erase] at there
      split at there
      · cases there
      · exact backed name rows there

/-- What is told of tables and of queries fits the transactions. -/
theorem perform_showsBacked (backed : s.TablesBacked) (r : Request) :
    r.ShowsBacked (s.perform r).2.engine.transactions (s.perform r).1 := by
  rw [perform_transactions]
  cases r with
  | readTable name =>
    simp only [perform, Engine.readTable]
    split
    · next rows there => exact backed name rows there
    · trivial
  | endQuery q =>
    simp only [perform, Engine.endQuery, Engine.answer]
    split
    · trivial
    split
    · trivial
    · rfl
  | _ => trivial

end State

/-! ## Programs among others -/

/-- What a program that keeps to the protocol ends with, among others that do. -/
theorem Program.Follows.of_backed {α : Type} {p : Program α} {a : α}
    {post : α → List Transaction → Prop} (h : p.Follows .backing ts post)
    (ends : p.EndsAmong State.StaysBacked s a s') (known : ts ⊆ s.engine.transactions)
    (backed : s.TablesBacked) :
    s'.TablesBacked ∧ ∃ ts' ⊆ s'.engine.transactions, post a ts' := by
  induction ends generalizing ts with
  | done a change =>
    exact ⟨change.tables backed, ts, List.Subset.trans known change.transactions,
      (follows_pure a).mp h⟩
  | @ask r next s s₁ s' a change rest ih =>
    obtain ⟨admitted, goes_on⟩ := follows_ask.mp h
    have known₁ := List.Subset.trans known change.transactions
    have backed₁ := change.tables backed
    have stays := State.perform_staysBacked known₁ admitted
    refine ih (goes_on _ _ ⟨?_, State.perform_showsBacked backed₁ r⟩) (List.Subset.refl _)
      (stays.tables backed₁)
    exact List.Subset.trans known₁ stays.transactions

theorem Program.Follows.run_backed {α : Type} {p : Program α}
    {post : α → List Transaction → Prop} (h : p.Follows .backing ts post)
    (known : ts ⊆ s.engine.transactions) (backed : s.TablesBacked) :
    ∃ ts' ⊆ (p.run s).2.engine.transactions, post (p.run s).1 ts' :=
  (h.of_backed (p.endsAmong_run (fun s => (State.OnlyGains.refl s).staysBacked) s) known backed).2

/-! ## The residual query is run in any case -/

/-- Combines the tables of the dependencies and keeps the users that the residual query selects
too, even if it has no tests. -/
def computeInFull (id : RuleId) (dependencies : List RuleId) (operation : SetOperation)
    (q : Query) : Action (Dataset × Instant) := do
  let (operands, oldest) ← loadDependencies id dependencies
  let combined ← orFail id (pure (Dataset.combine operation operands))
  let narrowed ← orFail id (runQuery q)
  return (Dataset.intersect combined (Dataset.dropNull narrowed), oldest)

/-- Where there are tests, this is what is done. -/
theorem computeInFull_eq (id : RuleId) (dependencies : List RuleId) (operation : SetOperation)
    (filtered : q.isUnfiltered = false) :
    computeInFull id dependencies operation q =
      computeComposite id dependencies operation (some q) := by
  have left : (some q).filter (fun q => !q.isUnfiltered) = some q := by simp [filtered]
  rw [computeInFull, computeComposite, left]

theorem orFail_ok {α : Type} (v : α) : orFail id (pure (.ok v)) = pure v := rfl

/-- An engine that answers a query is not told to fail. -/
theorem Engine.switches_of_answer {e : Engine} (answers : (e.answer q).isOk = true) :
    e.failQueries = false ∧ e.crashQueries = false := by
  rw [Engine.answer] at answers
  cases crash : e.crashQueries with
  | true =>
    rw [crash] at answers
    cases answers
  | false =>
    cases fail : e.failQueries with
    | true =>
      rw [crash, fail] at answers
      cases answers
    | false => exact ⟨rfl, rfl⟩

/-- The answer to a query, from an engine that is not told to fail. -/
theorem orFail_runQuery_run (answers : s.engine.failQueries = false)
    (lives : s.engine.crashQueries = false) :
    ((orFail id (runQuery q)).outcome.run s).1 = .ok (q.evaluate s.engine.transactions) := by
  have answer : (s.engine.beginQuery.answer q) = .ok (q.evaluate s.engine.transactions) := by
    simp [Engine.beginQuery, Engine.answer, answers, lives]
  rw [orFail, outcome_check, Program.run_bind, runQuery, Program.run_bind]
  change (s.engine.beginQuery.answer q).mapError _ = _
  rw [answer]
  rfl

/-- No request tells the engine to fail. -/
theorem Program.run_switches {α : Type} (p : Program α) (answers : s.engine.failQueries = false)
    (lives : s.engine.crashQueries = false) :
    (p.run s).2.engine.failQueries = false ∧ (p.run s).2.engine.crashQueries = false := by
  apply (asks_any p).keeps (fun s => s.engine.failQueries = false ∧ s.engine.crashQueries = false) _
    ⟨answers, lives⟩
  rintro r s - ⟨answers, lives⟩
  obtain ⟨same_answers, same_lives, -⟩ := s.perform_switches r
  exact ⟨same_answers.trans answers, same_lives.trans lives⟩

theorem loadDependencies_run (id : RuleId) (dependencies : List RuleId) (backed : s.TablesBacked)
    {operands : List Dataset} {oldest : Instant} {s₁ : State}
    (loaded : (loadDependencies id dependencies).outcome.run s = (.ok (operands, oldest), s₁)) :
    ∀ d ∈ operands, d.BackedBy s₁.engine.transactions := by
  have follows := Follows.outcome_ok
    (@loadDependencies_backed id dependencies s.engine.transactions)
  obtain ⟨ts', known, told⟩ := follows.run_backed (List.Subset.refl _) backed
  rw [loaded] at known told
  intro d hd
  exact (told _ rfl d hd).mono known

/-- A query without tests, run alone after the operands were combined, narrows nothing down. -/
theorem computeInFull_run (backed : s.TablesBacked) (unfiltered : q.isUnfiltered = true)
    (answers : (s.engine.answer q).isOk = true) :
    ((computeInFull id dependencies operation q).outcome.run s).1 =
      ((computeComposite id dependencies operation (some q)).outcome.run s).1 := by
  have nothing_left : (some q).filter (fun q => !q.isUnfiltered) = none := by simp [unfiltered]
  obtain ⟨answers, lives⟩ := Engine.switches_of_answer answers
  rw [computeInFull, computeComposite, nothing_left, outcome_bind, outcome_bind,
    Program.run_bind, Program.run_bind]
  cases loaded : (loadDependencies id dependencies).outcome.run s with
  | mk result s₁ =>
    cases result with
    | error e => rfl
    | ok operands =>
      obtain ⟨operands, oldest⟩ := operands
      have operands_backed := loadDependencies_run id dependencies backed loaded
      have switches := (loadDependencies id dependencies).outcome.run_switches answers lives
      rw [loaded] at switches
      dsimp only
      cases result : Dataset.combine operation operands with
      | error cause => rfl
      | ok combined =>
        have combined_backed := Dataset.BackedBy.combine operands_backed result
        rw [orFail_ok, pure_bind, pure_bind, outcome_bind, Program.run_bind,
          orFail_runQuery_run switches.1 switches.2]
        dsimp only
        rw [outcome_pure, outcome_pure, Program.run_pure, Program.run_pure,
          combined_backed.intersect_unfiltered unfiltered]

/-! ## Pools -/

namespace Pool

variable {p : Pool}

/-- Transactions stand behind all tables, and errands keep to the protocol from where they are. -/
structure Backed (p : Pool) : Prop where
  tables : p.state.TablesBacked
  workers : ∀ w ∈ p.workers, ∃ ts ⊆ p.state.engine.transactions,
    w.rest.Follows .backing ts fun _ _ => True

end Pool

theorem Errand.program_backs (errand : Errand) : (errand.program setup).Backs := by
  cases errand with
  | run id generation => exact (dispatch_backs id generation).bind fun _ => Program.backs_pure _
  | manual asked => exact manualRun_backs asked
  | firing id generation timer => exact recurringRun_backs id generation timer
  | pass => exact runPass_backs.bind fun _ => Program.backs_pure _
  | delete id => exact (deleteRule_backs id).outcome.bind fun _ => Program.backs_pure _

namespace Pool

variable {p : Pool} {w w' : Worker} {before after : List Worker}

namespace Backed

theorem of_meanwhile (h : p.Backed) (change : p.state.StaysBacked s') :
    Backed { p with state := s' } where
  tables := change.tables h.tables
  workers w hw := by
    obtain ⟨ts, known, follows⟩ := h.workers w hw
    exact ⟨ts, List.Subset.trans known change.transactions, follows⟩

/-- One errand goes on, and the others stay where they are. -/
theorem put (h : p.Backed) (split : p.workers = before ++ w :: after)
    (change : p.state.StaysBacked s')
    (follows : ∃ ts ⊆ s'.engine.transactions, w'.rest.Follows .backing ts fun _ _ => True) :
    Backed ⟨s', before ++ w' :: after⟩ where
  tables := change.tables h.tables
  workers x hx := by
    have others := (h.of_meanwhile change).workers
    rw [split] at others
    rcases List.mem_append.mp hx with hx | hx
    · exact others x (List.mem_append_left _ hx)
    · rcases List.mem_cons.mp hx with rfl | hx
      · exact follows
      · exact others x (List.mem_append_right _ (List.mem_cons_of_mem _ hx))

theorem turn (h : p.Backed) (i : Nat) : (p.turn i).Backed := by
  rcases p.turn_cases i with same | ⟨before, errand, r, next, share, after, split, -, turned⟩
  · rwa [same]
  rw [turned]
  have member : (⟨errand, .ask r next, share⟩ : Worker) ∈ p.workers := by simp [split]
  obtain ⟨ts, known, follows⟩ := h.workers _ member
  obtain ⟨admitted, rest⟩ := Program.follows_ask.mp follows
  have stays := State.perform_staysBacked known admitted
  apply h.put split stays
  refine ⟨_, List.Subset.refl _, rest _ _ ⟨?_, State.perform_showsBacked h.tables r⟩⟩
  exact List.Subset.trans known stays.transactions

theorem cancel (h : p.Backed) (i : Nat) : (p.cancel i).Backed := by
  rcases p.cancel_cases i
    with same | ⟨before, errand, r, next, share, after, split, -, -, cancelled⟩
  · rwa [same]
  rw [cancelled]
  have stays : p.state.OnlyGains (r.giveUp p.state) := by
    cases r <;> exact ⟨List.Subset.refl _, rfl⟩
  apply h.put split stays.staysBacked
  exact ⟨[], List.nil_subset _, (Program.follows_pure ()).mpr trivial⟩

theorem add (h : p.Backed) (errand : Errand) : (p.add setup errand).Backed where
  tables := h.tables
  workers w hw := by
    rcases List.mem_append.mp hw with hw | hw
    · exact h.workers w hw
    · obtain rfl := List.mem_singleton.mp hw
      exact ⟨[], List.nil_subset _, errand.program_backs []⟩

end Backed

/-- Whatever is on its way, transactions stand behind all tables. -/
theorem Reachable.backed (reachable : p.Reachable setup State.OnlyGains s₀)
    (nothing_written : s₀.engine.tables = []) : p.Backed := by
  induction reachable with
  | start =>
    refine ⟨fun name rows there => ?_, by simp⟩
    rw [Engine.table?, nothing_written] at there
    cases there
  | add _ errand ih => exact ih.add errand
  | turn _ i ih => exact ih.turn i
  | cancel _ i ih => exact ih.cancel i
  | meanwhile _ change ih => exact ih.of_meanwhile change.staysBacked

end Pool

/-- Transactions are only added, and only runs write tables, of which there are none at first; runs,
passes, deletions and changes of rules can come in between one another. Then a residual query
without tests may as well be skipped. Run alone, a combination that runs it gives the same rows as
one that does not; the rows of one that does not are those that the query would leave of them, also
where others go on meanwhile; and so are all rows, at the time when they are written. -/
theorem skips_unfiltered_residual {p : Pool} (reachable : p.Reachable setup State.OnlyGains s₀)
    (nothing_written : s₀.engine.tables = []) (unfiltered : q.isUnfiltered = true) :
    (∀ id dependencies operation, (p.state.engine.answer q).isOk = true →
      ((computeInFull id dependencies operation q).outcome.run p.state).1 =
        ((computeComposite id dependencies operation (some q)).outcome.run p.state).1) ∧
    (∀ id dependencies operation rows asOf s',
      (computeComposite id dependencies operation (some q)).outcome.EndsAmong State.StaysBacked
        p.state (.ok (rows, asOf)) s' →
      rows.intersect (Dataset.dropNull (q.evaluate s'.engine.transactions)) = rows) ∧
    ∀ w ∈ p.workers, ∀ name rows, w.next? = some (.writeTable name rows) →
      rows.intersect (Dataset.dropNull (q.evaluate p.state.engine.transactions)) = rows := by
  have backed := reachable.backed nothing_written
  refine ⟨fun id dependencies operation answers => ?_, ?_, ?_⟩
  · exact computeInFull_run backed.tables unfiltered answers
  · intro id dependencies operation rows asOf s' ends
    have follows := Follows.outcome_ok
      (@computeComposite_backed id dependencies operation (some q) p.state.engine.transactions)
    obtain ⟨-, ts', known, told⟩ := follows.of_backed ends (List.Subset.refl _) backed.tables
    exact ((told _ rfl).mono known).intersect_unfiltered unfiltered
  · intro w hw name rows writes
    obtain ⟨ts, known, follows⟩ := backed.workers w hw
    obtain ⟨next, rest⟩ := Worker.exists_rest_eq_ask writes
    rw [rest] at follows
    have admitted : rows.BackedBy ts := (Program.follows_ask.mp follows).1
    exact (admitted.mono known).intersect_unfiltered unfiltered

/-- A system without rules. Of its two transactions one has no user. -/
private def unruled : State :=
  let day : Date := ⟨2026, 1, 1, rfl⟩
  ({} : Setup).start (.still ⟨0, 0⟩)
    { transactions := [⟨some "ann", 10.0, day, 1, "UPI", none⟩, ⟨none, 10.0, day, 1, "UPI", none⟩] }

private def upi : Condition := .of "transaction_type" "=" (.text "UPI")

/-- A condition on a field that there is not, so that it is dropped. -/
private def mood : Condition := .of "mood" "=" (.int 1)

private def moodQuery : Query := (View.standard.compile [mood]).query

private def oneRule : State :=
  Operation.apply {} unruled (.create { name := "UPI", conditions := [upi] })

/-- The second rule has a condition more and builds on the first. -/
private def twoRules : State :=
  Operation.apply {} oneRule (.create { name := "UPI and mood", conditions := [upi, mood] })

/-- A pass that is about to write the table of the second rule. -/
private def residualPool : Pool :=
  ((Pool.mk twoRules []).add {} .pass).turns (List.replicate 32 0)

private def writing? (w : Worker) : Option (String × Dataset) :=
  match w.rest with
  | .ask (.writeTable name rows) _ => some (name, rows)
  | _ => none

private theorem next?_of_writing? {w : Worker} {name : String} {rows : Dataset}
    (writes : writing? w = some (name, rows)) : w.next? = some (.writeTable name rows) := by
  rw [writing?] at writes
  split at writes
  · next left =>
    obtain ⟨rfl, rfl⟩ := Prod.mk.inj (Option.some.inj writes)
    rw [Worker.next?, left]
  · cases writes

theorem skips_unfiltered_residual_dropped :
    (residualPool.state.catalog.get? (.ofNat 2)).map (fun e => e.segment.source) =
        some (.composite [.ofNat 1] .intersection (some moodQuery)) ∧
      ∃ w ∈ residualPool.workers, ∃ rows,
        w.next? = some (.writeTable "segment_output_2" rows) ∧
        rows.map (fun row => row.user) = [some "ann"] ∧
        rows.intersect (Dataset.dropNull
          (moodQuery.evaluate residualPool.state.engine.transactions)) = rows := by
  have one : (Pool.mk oneRule []).Reachable {} State.OnlyGains unruled :=
    Pool.Reachable.start.meanwhile (State.onlyGains_create {} _ unruled)
  have two : (Pool.mk twoRules []).Reachable {} State.OnlyGains unruled :=
    one.meanwhile (State.onlyGains_create {} _ oneRule)
  have reachable : residualPool.Reachable {} State.OnlyGains unruled := (two.add .pass).turns _
  obtain ⟨-, -, exact_now⟩ :=
    @skips_unfiltered_residual {} unruled moodQuery residualPool reachable rfl (by decide +kernel)
  have writes : (residualPool.workers.head?.bind writing?).map
      (fun written => (written.1, written.2.map fun row => row.user)) =
        some ("segment_output_2", [some "ann"]) := by decide +kernel
  obtain ⟨⟨name, rows⟩, found, shown⟩ := Option.map_eq_some_iff.mp writes
  obtain ⟨w, first, written⟩ := Option.bind_eq_some_iff.mp found
  obtain ⟨rfl, users⟩ := Prod.mk.inj shown
  have next := next?_of_writing? written
  have listed := List.mem_of_mem_head? first
  exact ⟨by decide +kernel, w, listed, rows, next, users, exact_now w listed _ rows next⟩

end Cohort
