import Mathlib.Logic.Relation
import Cohort.Proofs.Program.Protocol

/-!
# Locks and slots

A program can have to wait for a slot, when all are taken, and for the lock of a rule that someone
else holds. This module states a discipline for both: a slot is taken before any lock, the first
lock is taken while no other is held, and each further lock is that of a rule which all rules
locked before depend on. A rule is run only under its lock. A program that keeps to this never
waits for itself.

## Main definitions

* `Share` — the slots and locks that a program holds, and the rules whose runs are underway in it
* `Protocol.locking` — the discipline
* `Program.NeverWaits` — run alone, no request has to wait

## Main results

* `State.perform_locks`, `State.perform_slots` — what a program takes is gone from the state
* `Program.Follows.neverWaits` — a disciplined program that runs alone never waits
-/

namespace Cohort

variable {α β : Type} {s : State} {r : Request} {id : RuleId}

/-! ## What a program holds -/

/-- The slots and locks that a program holds, and the rules whose runs are underway in it. -/
structure Share where
  slots : Nat := 0
  locks : List RuleId := []
  underway : List RuleId := []
  deriving DecidableEq, Repr

namespace Request

/-- The slots that are held after a request. -/
def slotsAfter (slots : Nat) : Request → Nat
  | .takeSlot => slots + 1
  | .freeSlot => slots - 1
  | _ => slots

/-- The rules that are locked after a request. -/
def locksAfter (locks : List RuleId) : Request → List RuleId
  | .lock id | .lockNested id => id :: locks
  | .unlock id => locks.erase id
  | _ => locks

/-- The rules whose runs are underway after a request. The events of a run tell where it begins and
where it ends. -/
def underwayAfter (underway : List RuleId) : Request → List RuleId
  | .emit event =>
    match event.kind with
    | .runStarted => event.rule :: underway
    | .runSucceeded | .runFailed | .metadataUpdateFailed => underway.erase event.rule
    | _ => underway
  | _ => underway

end Request

/-- What a program holds after a request. -/
def Share.after (h : Share) (r : Request) : Share :=
  ⟨r.slotsAfter h.slots, r.locksAfter h.locks, r.underwayAfter h.underway⟩

namespace Share

@[simp] theorem after_lock_unlock (h : Share) (id : RuleId) :
    (h.after (.lock id)).after (.unlock id) = h := by
  simp [after, Request.slotsAfter, Request.locksAfter, Request.underwayAfter]

@[simp] theorem after_lockNested_unlock (h : Share) (id : RuleId) :
    (h.after (.lockNested id)).after (.unlock id) = h := h.after_lock_unlock id

@[simp] theorem after_runStarted_ofRun (h : Share) (id : RuleId) (outcome : Except Failure Nat) :
    (h.after (.emit { kind := .runStarted, rule := id })).after (.emit (Event.ofRun id outcome)) =
      h := by
  unfold Event.ofRun
  split <;> simp [after, Request.slotsAfter, Request.locksAfter, Request.underwayAfter]

end Share

/-- The runs that are underway are those of locked rules, each once. -/
structure Share.Guarded (h : Share) : Prop where
  distinct : h.underway.Nodup
  locked : ∀ id ∈ h.underway, id ∈ h.locks

theorem State.perform_locks (s : State) (r : Request) :
    (s.perform r).2.locks = r.locksAfter s.locks := by
  by_cases rows : r.ofRows = true
  · obtain ⟨catalog, faults, same⟩ := s.perform_ofRows rows
    rw [same]
    cases r <;> simp [Request.ofRows] at rows <;> rfl
  · cases r <;> simp [Request.ofRows] at rows <;> rfl

/-! ## The discipline -/

/-- Slots and locks are taken in order: a slot first, by a program that holds nothing; then the lock
of a rule, by a program that holds so many slots and no lock; and from then on locks of rules that
all locked rules depend on. A run is underway only under the lock of its rule, and only once. Rows
are neither added nor replaced, and the rows that are read depend on each other as said. -/
def Protocol.locking (dependsOn : RuleId → RuleId → Prop) (slots : Nat) : Protocol Share where
  Admits h r :=
    match r with
    | .takeSlot | .join => h = {}
    | .lock _ => h = { slots }
    | .lockNested id => id ∉ h.locks ∧ ∀ l ∈ h.locks, Relation.TransGen dependsOn l id
    | .unlock id => id ∈ h.locks ∧ id ∉ h.underway
    | .freeSlot => 0 < h.slots
    | .emit event => event.kind = .runStarted → event.rule ∈ h.locks ∧ event.rule ∉ h.underway
    | .insertRow _ | .replaceRow .. => False
    | _ => True
  Leads h r :=
    match r with
    | .getRow id => fun row h' => h' = h ∧ ∀ e, row = some e → ∀ p ∈ e.parents, dependsOn id p
    | r => fun _ h' => h' = h.after r

variable {dependsOn : RuleId → RuleId → Prop} {slots : Nat} {h : Share}

/-- Locks that are taken are taken from among those of all programs. -/
theorem Request.locksAfter_perm {locks others : List RuleId}
    (admitted : (Protocol.locking dependsOn slots).Admits h r)
    (held : locks.Perm (h.locks ++ others)) :
    (r.locksAfter locks).Perm (r.locksAfter h.locks ++ others) := by
  cases r
  case lock id => exact held.cons id
  case lockNested id => exact held.cons id
  case unlock id =>
    have first := held.erase id
    rwa [List.erase_append_left _ admitted.1] at first
  all_goals exact held

/-- A lock that is held cannot be taken. -/
theorem State.nodup_locksAfter (goes_on : s.blocks r = false) (distinct : s.locks.Nodup) :
    (r.locksAfter s.locks).Nodup := by
  cases r
  case lock id => exact List.nodup_cons.mpr ⟨by simpa [State.blocks] using goes_on, distinct⟩
  case lockNested id => exact List.nodup_cons.mpr ⟨by simpa [State.blocks] using goes_on, distinct⟩
  case unlock id => exact distinct.erase id
  all_goals exact distinct

/-- What is taken comes from the state, and what is given back goes there. -/
theorem State.perform_slots (admitted : (Protocol.locking dependsOn slots).Admits h r)
    (goes_on : s.blocks r = false) :
    (s.perform r).2.slots + (h.after r).slots = s.slots + h.slots := by
  by_cases rows : r.ofRows = true
  · obtain ⟨catalog, faults, same⟩ := s.perform_ofRows rows
    rw [same]
    cases r <;> simp [Request.ofRows] at rows <;> rfl
  · cases r <;> simp [Request.ofRows] at rows
    case takeSlot =>
      have some_left : s.slots ≠ 0 := by simpa [State.blocks] using goes_on
      simp only [State.perform, Share.after, Request.slotsAfter]
      omega
    case freeSlot =>
      have held : 0 < h.slots := admitted
      simp only [State.perform, Share.after, Request.slotsAfter]
      omega
    all_goals rfl

/-- The requests of a disciplined program keep its runs under locks. -/
theorem Share.Guarded.after (guarded : h.Guarded)
    (admitted : (Protocol.locking dependsOn slots).Admits h r) : (h.after r).Guarded := by
  cases r
  case lock id =>
    exact ⟨guarded.distinct, fun a ha => List.mem_cons_of_mem _ (guarded.locked a ha)⟩
  case lockNested id =>
    exact ⟨guarded.distinct, fun a ha => List.mem_cons_of_mem _ (guarded.locked a ha)⟩
  case unlock id =>
    refine ⟨guarded.distinct, fun a ha => (List.mem_erase_of_ne ?_).mpr (guarded.locked a ha)⟩
    rintro rfl
    exact admitted.2 ha
  case emit event =>
    have ended : Share.Guarded ⟨h.slots, h.locks, h.underway.erase event.rule⟩ :=
      ⟨guarded.distinct.erase _, fun a ha => guarded.locked a (List.mem_of_mem_erase ha)⟩
    simp only [Share.after, Request.slotsAfter, Request.locksAfter, Request.underwayAfter]
    split
    · next started =>
      obtain ⟨locked, fresh⟩ := admitted started
      refine ⟨List.nodup_cons.mpr ⟨fresh, guarded.distinct⟩, fun a ha => ?_⟩
      rcases List.mem_cons.mp ha with rfl | ha
      · exact locked
      · exact guarded.locked a ha
    · exact ended
    · exact ended
    · exact ended
    · exact guarded
  all_goals exact ⟨guarded.distinct, guarded.locked⟩

/-! ## Disciplined programs -/

/-- The request takes and gives back nothing, it does not belong to a run, and it adds and replaces
no row. -/
def Request.isAside : Request → Bool
  | .takeSlot | .freeSlot | .lock _ | .lockNested _ | .unlock _ | .join | .emit _ | .insertRow _ |
    .replaceRow .. => false
  | _ => true

theorem Protocol.locking_leads {answer : r.Answer} {h' : Share}
    (leads : (locking dependsOn slots).Leads h r answer h') : h' = h.after r := by
  cases r <;> first | exact leads | exact leads.1

theorem Protocol.locking_aside (aside : r.isAside = true) :
    (locking dependsOn slots).Admits h r ∧ h.after r = h := by
  cases r <;> simp [Request.isAside] at aside <;> exact ⟨trivial, rfl⟩

namespace Program

variable {f : r.Answer → Program β} {post : β → Share → Prop}

/-- A program goes on with what it holds after a request. -/
theorem follows_request (admitted : (Protocol.locking dependsOn slots).Admits h r)
    (next : ∀ answer, (f answer).Follows (.locking dependsOn slots) (h.after r) post) :
    (call r >>= f).Follows (.locking dependsOn slots) h post := by
  refine follows_call_bind.mpr ⟨admitted, fun answer h' leads => ?_⟩
  rw [Protocol.locking_leads leads]
  exact next answer

theorem follows_aside (aside : r.isAside = true)
    (next : ∀ answer, (f answer).Follows (.locking dependsOn slots) h post) :
    (call r >>= f).Follows (.locking dependsOn slots) h post := by
  obtain ⟨admitted, same⟩ := Protocol.locking_aside aside
  exact follows_request admitted (by rwa [same])

theorem Asks.follows_aside {p : Program α} (asks : p.Asks fun r => r.isAside = true) :
    p.Follows (.locking dependsOn slots) h fun _ h' => h' = h := by
  refine asks.follows (· = h) ?_ rfl
  rintro r _ aside rfl
  obtain ⟨admitted, same⟩ := Protocol.locking_aside aside
  exact ⟨admitted, fun _ _ leads => (Protocol.locking_leads leads).trans same⟩

end Program

namespace Action

variable {f : r.Answer → Action β} {good : β → Share → Prop} {bad : Share → Prop}

/-- A program goes on with what it holds after a request. -/
theorem follows_request (admitted : (Protocol.locking dependsOn slots).Admits h r)
    (next : ∀ answer, (f answer).Follows (.locking dependsOn slots) (h.after r) good bad) :
    (call r >>= f).Follows (.locking dependsOn slots) h good bad := by
  refine follows_call_bind.mpr ⟨admitted, fun answer h' leads => ?_⟩
  rw [Protocol.locking_leads leads]
  exact next answer

theorem follows_aside (aside : r.isAside = true)
    (next : ∀ answer, (f answer).Follows (.locking dependsOn slots) h good bad) :
    (call r >>= f).Follows (.locking dependsOn slots) h good bad := by
  obtain ⟨admitted, same⟩ := Protocol.locking_aside aside
  exact follows_request admitted (by rwa [same])

/-- The program keeps to the discipline and ends with what it began with. -/
abbrev GivesBack (dependsOn : RuleId → RuleId → Prop) (slots : Nat) (a : Action α) (h : Share) :
    Prop :=
  a.Follows (.locking dependsOn slots) h (fun _ h' => h' = h) fun h' => h' = h

theorem Asks.givesBack {a : Action α} (asks : a.Asks fun r => r.isAside = true) :
    a.GivesBack dependsOn slots h := by
  refine asks.follows (· = h) ?_ rfl
  rintro r _ aside rfl
  obtain ⟨admitted, same⟩ := Protocol.locking_aside aside
  exact ⟨admitted, fun _ _ leads => (Protocol.locking_leads leads).trans same⟩

theorem GivesBack.bind {a : Action α} {f : α → Action β} (back : a.GivesBack dependsOn slots h)
    (next : ∀ v, (f v).GivesBack dependsOn slots h) : (a >>= f).GivesBack dependsOn slots h := by
  refine Follows.bind back ?_
  rintro v _ rfl
  exact next v

/-- The outcome of a program that gives back what it takes is looked at. -/
theorem GivesBack.outcome_bind {a : Action α} {g : Except Failure α → Action β}
    (back : a.GivesBack dependsOn slots h)
    (next : ∀ result, (g result).Follows (.locking dependsOn slots) h good bad) :
    (of a.outcome >>= g).Follows (.locking dependsOn slots) h good bad := by
  refine follows_of_bind.mpr (back.outcome ?_ ?_)
  · rintro v _ rfl
    exact next _
  · rintro e _ rfl
    exact next _

end Action

/-! ## Programs that run alone -/

/-- Run alone from a state, no request of the program has to wait. -/
def Program.NeverWaits {α : Type} : Program α → State → Prop
  | .done _, _ => True
  | .ask r next, s => s.blocks r = false ∧ (next (s.perform r).1).NeverWaits (s.perform r).2

/-- A disciplined program never waits for itself. It runs alone where all locks are its own and all
slots are free or its own. -/
theorem Program.Follows.neverWaits {p : Program α} {post : α → Share → Prop}
    (follows : p.Follows (.locking (fun _ _ => True) slots) h post)
    (locks : s.locks.Sublist h.locks) (enough : 0 < s.slots + h.slots) : p.NeverWaits s := by
  induction p generalizing h s with
  | done a => trivial
  | ask r next ih =>
    obtain ⟨admitted, goes_on⟩ := follows_ask.mp follows
    have own : ∀ id ∈ s.locks, id ∈ h.locks := fun id hid => locks.subset hid
    have free : s.blocks r = false := by
      cases r <;> try rfl
      case takeSlot =>
        obtain rfl : h = {} := admitted
        simpa [State.blocks, Nat.pos_iff_ne_zero] using enough
      -- All locks are its own, and it has none yet.
      case lock id =>
        obtain rfl : h = { slots } := admitted
        simpa [State.blocks] using fun hid => List.not_mem_nil (own id hid)
      case lockNested id =>
        simpa [State.blocks] using fun hid => admitted.1 (own id hid)
    have leads : (Protocol.locking (fun _ _ => True) slots).Leads h r (s.perform r).1
        (h.after r) := by
      cases r <;> first | rfl | exact ⟨rfl, fun _ _ _ _ => trivial⟩
    refine ⟨free, ih _ (goes_on _ _ leads) ?_ ?_⟩
    · rw [s.perform_locks]
      cases r <;> try exact locks
      case lock id => exact locks.cons_cons id
      case lockNested id => exact locks.cons_cons id
      case unlock id => exact locks.erase id
    · rwa [State.perform_slots admitted free]

end Cohort
