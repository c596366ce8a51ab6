import Cohort.Program

/-!
# The requests of a program

What an operation leaves alone follows from the kinds of requests that it can make at
all, whatever the answers are. This holds also where other programs go on in between.

## Main definitions

* `Program.Asks` — every request that a program can make is of some kind
* `Request.leavesCatalog`, `Request.leavesTables`, `Request.leavesData`,
  `Request.leavesDefinitions`, `Request.addsNoJob`, `Request.ofTask`, `Request.ofRows` — kinds of
  requests
* `Clock.HasShown`, `Clock.NeverGoesBack`, `Clock.GoesOn` — times that were read, and that come

## Main results

* `Program.Asks.keeps` — what every such request preserves, the program preserves
* `State.perform_catalog`, `State.perform_tables`, `State.perform_ofRows` — what requests of a kind
  leave alone
* `State.perform_replaceRow` and the like — changes of rows where nothing fails
-/

namespace Cohort

variable {α β : Type} {P Q : Request → Prop}

namespace Program

/-- Every request that the program can make satisfies a predicate. -/
def Asks (P : Request → Prop) : Program α → Prop
  | .done _ => True
  | .ask r next => P r ∧ ∀ answer, (next answer).Asks P

theorem asks_pure (a : α) : (pure a : Program α).Asks P := trivial

theorem asks_ask {r : Request} {next : r.Answer → Program α} :
    (ask r next).Asks P ↔ P r ∧ ∀ answer, (next answer).Asks P := Iff.rfl

theorem asks_call {r : Request} (h : P r) : (call r).Asks P := ⟨h, fun _ => trivial⟩

theorem asks_bind {p : Program α} {f : α → Program β} (hp : p.Asks P)
    (hf : ∀ a, (f a).Asks P) : (p >>= f).Asks P := by
  induction p with
  | done a => exact hf a
  | ask r next ih => exact ⟨hp.1, fun answer => ih answer (hp.2 answer)⟩

theorem Asks.mono {p : Program α} (h : p.Asks P) (weaker : ∀ r, P r → Q r) : p.Asks Q := by
  induction p with
  | done a => trivial
  | ask r next ih => exact ⟨weaker r h.1, fun answer => ih answer (h.2 answer)⟩

theorem asks_any (p : Program α) : p.Asks fun _ => True := by
  induction p with
  | done a => trivial
  | ask r next ih => exact ⟨trivial, ih⟩

/-- What every request of a program preserves, the program preserves. -/
theorem Asks.keeps (inv : State → Prop) {p : Program α} (h : p.Asks P)
    (step : ∀ r s, P r → inv s → inv (s.perform r).2) {s : State} (hs : inv s) :
    inv (p.run s).2 := by
  induction p generalizing s with
  | done a => exact hs
  | ask r next ih => exact ih _ (h.2 _) (step r s h.1 hs)

end Program

namespace Action

/-- Every request that the program can make satisfies a predicate. -/
def Asks (P : Request → Prop) (a : Action α) : Prop := a.outcome.Asks P

theorem asks_pure (v : α) : (pure v : Action α).Asks P := trivial

theorem asks_throw (e : Failure) : (throw e : Action α).Asks P := trivial

theorem asks_check {p : Program (Except Failure α)} (h : p.Asks P) : (check p).Asks P := h

theorem asks_bind {a : Action α} {f : α → Action β} (ha : a.Asks P)
    (hf : ∀ v, (f v).Asks P) : (a >>= f).Asks P := by
  refine Program.asks_bind ha fun result => ?_
  cases result with
  | ok v => exact hf v
  | error e => trivial

theorem asks_of {p : Program α} (h : p.Asks P) : (of p).Asks P :=
  Program.asks_bind h fun _ => trivial

theorem asks_call {r : Request} (h : P r) : (call r).Asks P := asks_of (Program.asks_call h)

theorem asks_foldlM {f : β → α → Action β} (hf : ∀ b a, (f b a).Asks P) (l : List α) (b : β) :
    (l.foldlM f b).Asks P := by
  induction l generalizing b with
  | nil => trivial
  | cons a rest ih => exact asks_bind (hf b a) fun b' => ih b'

theorem asks_mapM {f : α → Action β} (hf : ∀ a, (f a).Asks P) (l : List α) :
    (l.mapM f).Asks P := by
  induction l with
  | nil =>
    rw [List.mapM_nil]
    trivial
  | cons a rest ih =>
    rw [List.mapM_cons]
    exact asks_bind (hf a) fun b => asks_bind ih fun bs => asks_pure _

theorem Asks.outcome {a : Action α} (h : a.Asks P) : a.outcome.Asks P := h

end Action

-- Programs are taken apart by the lemmas above, and never evaluated.
attribute [irreducible] Program.Asks Action.Asks

/-! ## Kinds of requests -/

namespace Request

/-- The request changes nothing in the catalogue. -/
def leavesCatalog : Request → Bool
  | .allocateId | .insertRow _ | .replaceRow .. | .removeRow _ | .recordRefresh .. |
    .recordRun .. => false
  | _ => true

/-- The request neither writes nor drops a table. -/
def leavesTables : Request → Bool
  | .writeTable .. | .dropTable _ => false
  | _ => true

/-- The request changes neither the rows of the catalogue nor the data of the engine. -/
def leavesData : Request → Bool
  | .writeTable .. | .dropTable _ => false
  | r => r.leavesCatalog

/-- The request neither adds nor removes a row, and of the rows it changes no more than what runs
leave behind. -/
def leavesDefinitions : Request → Bool
  | .allocateId | .insertRow _ | .replaceRow .. | .removeRow _ => false
  | _ => true

/-- A task asks for it: it reads, it keeps the books of a run, or it takes and gives back what a run
holds. It adds and removes no row, no job and no table. -/
def ofTask : Request → Bool
  | .allocateId | .insertRow _ | .replaceRow .. | .removeRow _ | .dropTable _ | .installJob .. |
    .removeJob _ | .clearJobs | .enqueueRun .. => false
  | _ => true

/-- The request changes a row that is there, which the catalogue can be told to refuse. -/
def ofRows : Request → Bool
  | .replaceRow .. | .removeRow _ | .recordRefresh .. | .recordRun .. => true
  | _ => false

/-- The request puts no job in place. -/
def addsNoJob : Request → Bool
  | .installJob .. => false
  | _ => true

theorem addsNoJob_of_ofTask {r : Request} (h : r.ofTask = true) : r.addsNoJob = true := by
  cases r <;> simp_all [ofTask, addsNoJob]

theorem leavesDefinitions_of_ofTask {r : Request} (h : r.ofTask = true) :
    r.leavesDefinitions = true := by
  cases r <;> simp_all [ofTask, leavesDefinitions]

theorem leavesTables_of_leavesData {r : Request} (h : r.leavesData = true) :
    r.leavesTables = true := by
  cases r <;> simp_all [leavesData, leavesTables]

theorem leavesCatalog_of_leavesData {r : Request} (h : r.leavesData = true) :
    r.leavesCatalog = true := by
  cases r <;> simp_all [leavesData]

end Request

namespace State

theorem perform_catalog {r : Request} (h : r.leavesCatalog = true) (s : State) :
    (s.perform r).2.catalog = s.catalog := by
  cases r <;> simp_all [Request.leavesCatalog, perform]

/-- Where rows change, nothing changes outside the catalogue. -/
theorem perform_ofRows {r : Request} (h : r.ofRows = true) (s : State) :
    ∃ catalog faults, (s.perform r).2 = { s with catalog, faults } := by
  cases r <;> simp [Request.ofRows] at h
  all_goals simp only [perform, replaceRow, removeRow, recordRefresh, recordRun]
  all_goals split <;> exact ⟨_, _, rfl⟩

theorem perform_tables {r : Request} (h : r.leavesTables = true) (s : State) :
    (s.perform r).2.engine.tables = s.engine.tables := by
  by_cases rows : r.ofRows = true
  · obtain ⟨catalog, faults, same⟩ := s.perform_ofRows rows
    rw [same]
  · cases r <;> simp [Request.ofRows, Request.leavesTables] at rows h <;> rfl

/-- A catalogue that refuses nothing without a reason does not begin to. -/
theorem perform_faultless {s : State} (h : s.faults = {}) (r : Request) :
    (s.perform r).2.faults = {} := by
  cases r <;> simp [perform, replaceRow, removeRow, recordRefresh, recordRun, Fault.trip, h]

/-! A catalogue that refuses nothing without a reason does what is asked for. -/

theorem perform_replaceRow {s : State} (h : s.faults = {}) (e : Entry) (expected : Nat) :
    s.perform (.replaceRow e expected) =
      ((s.catalog.replace e expected).1,
        { s with catalog := (s.catalog.replace e expected).2 }) := by
  simp [perform, replaceRow, Fault.trip, h]

theorem perform_removeRow {s : State} (h : s.faults = {}) (id : RuleId) :
    s.perform (.removeRow id) =
      ((s.catalog.remove id).1, { s with catalog := (s.catalog.remove id).2 }) := by
  simp [perform, removeRow, Fault.trip, h]

theorem perform_recordRefresh {s : State} (h : s.faults = {}) (id : RuleId) (refresh : Refresh) :
    s.perform (.recordRefresh id refresh) =
      ((s.catalog.recordRefresh id refresh).1,
        { s with catalog := (s.catalog.recordRefresh id refresh).2 }) := by
  simp [perform, recordRefresh, Fault.trip, h]

theorem perform_recordRun {s : State} (h : s.faults = {}) (id : RuleId) (last next : Instant) :
    s.perform (.recordRun id last next) =
      ((s.catalog.recordRun id last next).1,
        { s with catalog := (s.catalog.recordRun id last next).2 }) := by
  simp [perform, recordRun, Fault.trip, h]

/-- The switches of the engine stay as they are. -/
theorem perform_switches (s : State) (r : Request) :
    (s.perform r).2.engine.failQueries = s.engine.failQueries ∧
      (s.perform r).2.engine.crashQueries = s.engine.crashQueries ∧
      (s.perform r).2.engine.failingWrites = s.engine.failingWrites ∧
      (s.perform r).2.engine.failingDrops = s.engine.failingDrops := by
  by_cases rows : r.ofRows = true
  · obtain ⟨catalog, faults, same⟩ := s.perform_ofRows rows
    rw [same]
    exact ⟨rfl, rfl, rfl, rfl⟩
  · cases r <;> simp [Request.ofRows] at rows
    case writeTable name rows =>
      simp only [perform, Engine.writeTable]
      split <;> exact ⟨rfl, rfl, rfl, rfl⟩
    case dropTable name =>
      simp only [perform, Engine.dropTable]
      split <;> exact ⟨rfl, rfl, rfl, rfl⟩
    all_goals exact ⟨rfl, rfl, rfl, rfl⟩

end State

namespace Program

theorem Asks.run_catalog {p : Program α} (h : p.Asks fun r => r.leavesCatalog = true)
    (s : State) : (p.run s).2.catalog = s.catalog :=
  h.keeps (fun s' => s'.catalog = s.catalog)
    (fun _ s' hr hs => (s'.perform_catalog hr).trans hs) rfl

end Program

/-! ## The clock -/

/-- The clock was read at this time. -/
def Clock.HasShown (c : Clock) (t : Instant) : Prop := ∃ i < c.readings, c.reading i = t

/-- The clock does not go back. -/
def Clock.NeverGoesBack (clock : Clock) : Prop :=
  ∀ i j, i ≤ j → clock.reading i ≤ clock.reading j

/-- It is the same clock, which may have been read meanwhile. -/
structure Clock.GoesOn (c c' : Clock) : Prop where
  reading : c'.reading = c.reading
  readings : c.readings ≤ c'.readings

namespace Clock

variable {c c' c'' : Clock} {t : Instant}

theorem hasShown_read (c : Clock) : c.read.2.HasShown c.read.1 :=
  ⟨c.readings, Nat.lt_succ_self _, rfl⟩

theorem still_neverGoesBack (t : Instant) : (still t).NeverGoesBack := by
  intro i j _
  change Instant.le t t = true
  simp [Instant.le]

/-- A time that a clock has shown is not in the future, if the clock does not go back. -/
theorem NeverGoesBack.le_read (h : c.NeverGoesBack) (shown : c.HasShown t) : t ≤ c.read.1 := by
  obtain ⟨i, hi, rfl⟩ := shown
  exact h i _ (Nat.le_of_lt hi)

theorem GoesOn.refl (c : Clock) : c.GoesOn c := ⟨rfl, Nat.le_refl _⟩

theorem GoesOn.trans (h : c.GoesOn c') (h' : c'.GoesOn c'') : c.GoesOn c'' :=
  ⟨h'.reading.trans h.reading, Nat.le_trans h.readings h'.readings⟩

theorem HasShown.goesOn (h : c.HasShown t) (on : c.GoesOn c') : c'.HasShown t := by
  obtain ⟨i, hi, shown⟩ := h
  exact ⟨i, Nat.lt_of_lt_of_le hi on.readings, by rw [on.reading, shown]⟩

theorem GoesOn.neverGoesBack_iff (h : c.GoesOn c') : c'.NeverGoesBack ↔ c.NeverGoesBack := by
  rw [NeverGoesBack, NeverGoesBack, h.reading]

end Clock

/-- The clock is read, but never set. -/
theorem State.perform_reading (s : State) (r : Request) :
    (s.perform r).2.clock.reading = s.clock.reading := by
  by_cases rows : r.ofRows = true
  · obtain ⟨catalog, faults, same⟩ := s.perform_ofRows rows
    rw [same]
  · cases r <;> simp [Request.ofRows] at rows <;> rfl

/-- A request may read the clock. -/
theorem State.perform_goesOn (s : State) (r : Request) : s.clock.GoesOn (s.perform r).2.clock := by
  refine ⟨s.perform_reading r, ?_⟩
  by_cases rows : r.ofRows = true
  · obtain ⟨catalog, faults, same⟩ := s.perform_ofRows rows
    exact Nat.le_of_eq (by rw [same])
  · cases r <;> simp [Request.ofRows] at rows <;>
      first | exact Nat.le_refl _ | exact Nat.le_succ _

/-- What the clock has shown, it has shown for good. -/
theorem State.perform_hasShown {s : State} {t : Instant} (h : s.clock.HasShown t) (r : Request) :
    (s.perform r).2.clock.HasShown t :=
  h.goesOn (s.perform_goesOn r)

end Cohort
