import Cohort.Event

/-!
# The events of runs

A run tells when it starts and how it ends. The runs of its dependencies go on in between, so that
the events of runs stand within each other as brackets do.

## Main definitions

* `startsOf`, `endsOf` — the rules whose runs are told to start, and to end
* `Nested` — the events of runs that go on within each other and one after the other
* `Orderly` — the same, of rules of some kind, each of which starts once

## Main results

* `Nested.ends_perm` — runs end just as often as they start
* `Orderly.append`, `Orderly.frame` — runs one after the other, and runs within a run
-/

namespace Cohort

/-- A run has ended, in whatever way. -/
def EventKind.endsRun : EventKind → Bool
  | .runSucceeded | .runFailed | .metadataUpdateFailed => true
  | _ => false

/-- The rules whose runs are told to start. -/
def startsOf (events : List Event) : List RuleId :=
  (events.filter fun event => event.kind = .runStarted).map Event.rule

/-- The rules whose runs are told to end. -/
def endsOf (events : List Event) : List RuleId :=
  (events.filter fun event => event.kind.endsRun).map Event.rule

/-- The events of runs one after the other. Each run is told to start and to end, and in between
are the events of the runs within it. -/
inductive Nested : List Event → Prop
  | nil : Nested []
  | run (id : RuleId) (outcome : Except Failure Nat) {inner rest : List Event}
      (within : Nested inner) (after : Nested rest) :
      Nested ({ kind := .runStarted, rule := id } :: inner ++ Event.ofRun id outcome :: rest)

variable {told told' inner : List Event} {id : RuleId} {may may' : RuleId → Prop}

@[simp] theorem startsOf_nil : startsOf [] = [] := rfl

@[simp] theorem startsOf_append : startsOf (told ++ told') = startsOf told ++ startsOf told' := by
  simp [startsOf]

@[simp] theorem endsOf_append : endsOf (told ++ told') = endsOf told ++ endsOf told' := by
  simp [endsOf]

theorem Event.kind_ofRun (id : RuleId) (outcome : Except Failure Nat) :
    (Event.ofRun id outcome).kind.endsRun = true ∧ (Event.ofRun id outcome).rule = id := by
  unfold Event.ofRun
  split <;> exact ⟨rfl, rfl⟩

theorem Event.ofRun_kind_ne_runStarted (id : RuleId) (outcome : Except Failure Nat) :
    (Event.ofRun id outcome).kind ≠ .runStarted := by
  intro started
  have ends := (Event.kind_ofRun id outcome).1
  rw [started] at ends
  cases ends

@[simp] theorem startsOf_ofRun_cons (outcome : Except Failure Nat) :
    startsOf (Event.ofRun id outcome :: told) = startsOf told := by
  simp [startsOf, Event.ofRun_kind_ne_runStarted]

@[simp] theorem startsOf_started_cons :
    startsOf ({ kind := .runStarted, rule := id } :: told) = id :: startsOf told := rfl

@[simp] theorem endsOf_ofRun_cons (outcome : Except Failure Nat) :
    endsOf (Event.ofRun id outcome :: told) = id :: endsOf told := by
  simp [endsOf, Event.kind_ofRun]

@[simp] theorem endsOf_started_cons :
    endsOf ({ kind := .runStarted, rule := id } :: told) = endsOf told := rfl

namespace Nested

theorem append (h : Nested told) (h' : Nested told') : Nested (told ++ told') := by
  induction h with
  | nil => exact h'
  | run id outcome within _ _ ih =>
    rw [List.append_assoc, List.cons_append]
    exact .run id outcome within ih

/-- The runs within a run, with the events that frame them. -/
theorem frame (h : Nested inner) (id : RuleId) (outcome : Except Failure Nat) :
    Nested ({ kind := .runStarted, rule := id } :: inner ++ [Event.ofRun id outcome]) :=
  .run id outcome h .nil

/-- Each run that is told to start is told to end, once for each time. -/
theorem ends_perm (h : Nested told) : (endsOf told).Perm (startsOf told) := by
  induction h with
  | nil => exact .refl _
  | run id outcome _ _ within after =>
    simp only [endsOf_append, endsOf_started_cons, endsOf_ofRun_cons, startsOf_append,
      startsOf_started_cons, startsOf_ofRun_cons, List.cons_append]
    exact List.perm_middle.trans ((within.append after).cons id)

end Nested

/-- The events are those of runs within each other, of rules of some kind, each of which is told to
start once. -/
structure Orderly (may : RuleId → Prop) (told : List Event) : Prop where
  nested : Nested told
  once : (startsOf told).Nodup
  allowed : ∀ id ∈ startsOf told, may id

namespace Orderly

theorem nil : Orderly may [] := ⟨.nil, List.nodup_nil, nofun⟩

theorem mono (h : Orderly may told) (weaker : ∀ id, may id → may' id) : Orderly may' told :=
  { h with allowed := fun id hid => weaker id (h.allowed id hid) }

/-- Runs of other rules go on after some runs. -/
theorem append (h : Orderly may told) (h' : Orderly may told')
    (apart : ∀ id ∈ startsOf told', id ∉ startsOf told) : Orderly may (told ++ told') where
  nested := h.nested.append h'.nested
  once := by
    rw [startsOf_append, List.nodup_append]
    exact ⟨h.once, h'.once, fun a ha b hb same => apart b hb (same ▸ ha)⟩
  allowed id hid := by
    rw [startsOf_append, List.mem_append] at hid
    exact hid.elim (h.allowed id) (h'.allowed id)

/-- Runs of other rules go on within a run. -/
theorem frame (h : Orderly may inner) (own : may id) (other : id ∉ startsOf inner)
    (outcome : Except Failure Nat) :
    Orderly may ({ kind := .runStarted, rule := id } :: inner ++ [Event.ofRun id outcome]) where
  nested := h.nested.frame id outcome
  once := by
    simpa using ⟨other, h.once⟩
  allowed a ha := by
    simp only [List.cons_append, startsOf_started_cons, startsOf_append, startsOf_ofRun_cons,
      startsOf_nil, List.append_nil, List.mem_cons] at ha
    exact ha.elim (fun same => same ▸ own) (h.allowed a)

end Orderly

end Cohort
