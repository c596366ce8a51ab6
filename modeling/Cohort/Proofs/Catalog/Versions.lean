import Mathlib.Data.List.Induction
import Mathlib.Data.List.Infix
import Cohort.Proofs.Catalog.Rows
import Cohort.Proofs.Program.Requests

/-!
# Versions of rows

Every write of a row counts its version up, whoever makes it and whether or not the writer has seen
the row before. So a row that is found in the version in which it was seen is the row that was
seen, and nothing was written to it in between. The one way around this is that a row is removed
and a new one, whose version starts again, comes in its place.

## Main definitions

* `RowStep` — what one request can make of the row of a rule
* `State.Writes` — a request replaces the row of a rule, or records a refresh or a run in it
* `NeverReturns` — a row that is gone stays gone
* `Unwritten` — a row stays what it is, and nothing is written to it

## Main results

* `State.perform_rowStep` — all that a request can do to a row
* `unwritten_or_newer` — a row is untouched, or its version is higher, or it is gone
* `State.replaceRow_refused` — a row that has changed is not replaced
-/

namespace Cohort

variable {ι : Type} {s : State} {c : Catalog} {e next : Entry} {id : RuleId} {r : Request}

/-! ## One request -/

/-- What one request can make of a row: it is written, and its version counts up, or it is not
written, and stays, goes or comes. -/
inductive RowStep (written : Prop) : Option Entry → Option Entry → Prop
  | same (row : Option Entry) (not_written : ¬ written) : RowStep written row row
  | written {e e' : Entry} (made : written) (counted : e'.version = e.version + 1) :
      RowStep written (some e) (some e')
  | removed (e : Entry) (not_written : ¬ written) : RowStep written (some e) none
  | inserted (e : Entry) (not_written : ¬ written) : RowStep written none (some e)

/-- The request replaces the row of the rule, or it records a refresh or a run in it, and this
succeeds. -/
def State.Writes (s : State) (id : RuleId) : Request → Prop
  | .replaceRow e expected =>
    e.id = id ∧ ∃ stored, (s.perform (.replaceRow e expected)).1 = .ok stored
  | .recordRefresh a refresh => a = id ∧ (s.perform (.recordRefresh a refresh)).1 = .ok ()
  | .recordRun a last next => a = id ∧ (s.perform (.recordRun a last next)).1 = .ok ()
  | _ => False

namespace Catalog

theorem insert_rowStep (c : Catalog) (e : Entry) (id : RuleId) :
    RowStep False (c.get? id) ((c.insert e).2.get? id) := by
  rcases c.insert_cases e with ⟨failure, unchanged⟩ | ⟨c', inserted, -, fresh, -, rows, -⟩
  · rw [unchanged]
    exact .same _ not_false
  · rw [inserted, get?_of_put_at rows]
    split
    · next same =>
      rw [← same, fresh]
      exact .inserted _ not_false
    · exact .same _ not_false

theorem replace_rowStep (c : Catalog) (e : Entry) (expected : Nat) (id : RuleId) :
    RowStep (e.id = id ∧ ∃ stored, (c.replace e expected).1 = .ok stored) (c.get? id)
      ((c.replace e expected).2.get? id) := by
  rcases c.replace_cases e expected
    with ⟨failure, unchanged⟩ | ⟨current, c', replaced, -, found, rfl, -, rows, -⟩
  · rw [unchanged]
    refine .same _ fun ⟨_, _, ok⟩ => ?_
    cases ok
  · rw [replaced, get?_of_put_at rows]
    split
    · next same =>
      rw [← same, found]
      exact .written ⟨rfl, _, rfl⟩ rfl
    · next other => exact .same _ fun written => other written.1

theorem remove_rowStep (c : Catalog) (a id : RuleId) :
    RowStep False (c.get? id) ((c.remove a).2.get? id) := by
  rcases c.remove_cases a with ⟨failure, unchanged⟩ | ⟨current, c', removed, found, rows, -⟩
  · rw [unchanged]
    exact .same _ not_false
  · rw [removed, get?_of_erase rows]
    split
    · next same =>
      rw [← same, found]
      exact .removed _ not_false
    · exact .same _ not_false

theorem modify_rowStep (c : Catalog) (a id : RuleId) {f : Entry → Entry}
    (counts : ∀ e, (f e).version = e.version + 1) :
    RowStep (a = id ∧ (c.modify a f).1 = .ok ()) (c.get? id) ((c.modify a f).2.get? id) := by
  rcases c.modify_cases a f with ⟨unchanged, -⟩ | ⟨current, c', changed, found, rows, -⟩
  · rw [unchanged]
    refine .same _ fun ⟨_, ok⟩ => ?_
    cases ok
  · rw [changed, get?_of_put_at rows]
    split
    · next same =>
      rw [← same, found]
      exact .written ⟨rfl, rfl⟩ (counts _)
    · next other => exact .same _ fun written => other written.1

end Catalog

/-- All that a request can do to the row of a rule. -/
theorem State.perform_rowStep (s : State) (r : Request) (id : RuleId) :
    RowStep (s.Writes id r) (s.catalog.get? id) ((s.perform r).2.catalog.get? id) := by
  by_cases kept : r.leavesCatalog = true
  · rw [perform_catalog kept]
    refine .same _ fun written => ?_
    cases r <;> first | exact written | cases kept
  · cases r <;> simp [Request.leavesCatalog] at kept
    case allocateId => exact .same _ not_false
    case insertRow e => exact s.catalog.insert_rowStep e id
    case replaceRow e expected =>
      simp only [Writes, perform, replaceRow]
      split
      · refine .same _ ?_
        rintro ⟨_, _, ok⟩
        cases ok
      · exact s.catalog.replace_rowStep e expected id
    case removeRow a =>
      simp only [Writes, perform, removeRow]
      split
      · exact .same _ not_false
      · exact s.catalog.remove_rowStep a id
    case recordRefresh a refresh =>
      simp only [Writes, perform, recordRefresh]
      split
      · refine .same _ ?_
        rintro ⟨_, ok⟩
        cases ok
      · exact s.catalog.modify_rowStep a id fun _ => rfl
    case recordRun a last next =>
      simp only [Writes, perform, recordRun]
      split
      · refine .same _ ?_
        rintro ⟨_, ok⟩
        cases ok
      · exact s.catalog.modify_rowStep a id fun _ => rfl

/-! ## Many requests -/

section History

variable {row : List ι → Option Entry} {written : List ι → ι → Prop} {xs : List ι}

/-- A row that was there and is gone is not there again later. The row is given after each part of
a history. -/
def NeverReturns (row : List ι → Option Entry) (xs : List ι) : Prop :=
  ∀ p q t, p ++ q ++ t <+: xs → (row p).isSome → row (p ++ q) = none → row (p ++ q ++ t) = none

/-- A row that is there all the time does not return. -/
theorem NeverReturns.of_isSome (there : ∀ p ∈ xs.inits, (row p).isSome) : NeverReturns row xs := by
  intro p q t prefixed _ left
  have shorter : p ++ q <+: xs := (List.prefix_append _ t).trans prefixed
  have present := there (p ++ q) ((List.mem_inits _ _).mpr shorter)
  rw [left] at present
  cases present

/-- The same of a later part of the history. -/
theorem NeverReturns.shift {ys : List ι} (gone : NeverReturns row (ys ++ xs)) :
    NeverReturns (fun p => row (ys ++ p)) xs := by
  intro p q t prefixed there left
  have longer : ys ++ p ++ q ++ t <+: ys ++ xs := by
    simpa only [List.append_assoc] using (List.prefix_append_right_inj ys).mpr prefixed
  have last := gone (ys ++ p) q t longer there (by rwa [List.append_assoc])
  simpa only [List.append_assoc] using last

/-- All through a history the row is the same, and nothing is written to it. -/
structure Unwritten (row : List ι → Option Entry) (written : List ι → ι → Prop) (e : Entry)
    (xs : List ι) : Prop where
  same : ∀ p, p <+: xs → row p = some e
  not_written : ∀ p x, p ++ [x] <+: xs → ¬ written p x

/-- From where a row was seen, it is untouched, or its version is higher, or it is gone. -/
theorem unwritten_or_newer (step : ∀ p x, RowStep (written p x) (row p) (row (p ++ [x])))
    (gone : NeverReturns row xs) (seen : row [] = some e) :
    Unwritten row written e xs ∨ (∃ e', row xs = some e' ∧ e.version < e'.version) ∨
      row xs = none := by
  induction xs using List.reverseRecOn with
  | nil =>
    refine .inl ⟨fun p hp => ?_, fun p x hp => ?_⟩
    · rw [List.prefix_nil.mp hp, seen]
    · simp at hp
  | append_singleton xs x ih =>
    have shorter : NeverReturns row xs :=
      fun p q t prefixed => gone p q t (prefixed.trans (List.prefix_append _ _))
    have last := step xs x
    rcases ih shorter with unwritten | ⟨e', found, newer⟩ | none_left
    · have found : row xs = some e := unwritten.same xs List.prefix_rfl
      rw [found] at last
      generalize after : row (xs ++ [x]) = row' at last
      cases last with
      | same _ not_written =>
        refine .inl ⟨fun p hp => ?_, fun p y hp => ?_⟩
        · rcases List.prefix_concat_iff.mp hp with rfl | hp
          · exact after
          · exact unwritten.same p hp
        · rcases List.prefix_concat_iff.mp hp with whole | hp
          · obtain ⟨rfl, rfl⟩ := List.append_inj' whole rfl |>.imp_right List.singleton_inj.mp
            exact not_written
          · exact unwritten.not_written p y hp
      | written _ counted => exact .inr (.inl ⟨_, rfl, by omega⟩)
      | removed _ _ => exact .inr (.inr rfl)
    · rw [found] at last
      generalize after : row (xs ++ [x]) = row' at last
      cases last with
      | same _ _ => exact .inr (.inl ⟨e', rfl, newer⟩)
      | written _ counted => exact .inr (.inl ⟨_, rfl, by omega⟩)
      | removed _ _ => exact .inr (.inr rfl)
    · refine .inr (.inr ?_)
      have was_there : (row []).isSome := by rw [seen]; rfl
      exact gone [] xs [x] List.prefix_rfl was_there none_left

/-- A row that is found in the version in which it was seen is untouched. -/
theorem unwritten_of_version (step : ∀ p x, RowStep (written p x) (row p) (row (p ++ [x])))
    (gone : NeverReturns row xs) (seen : row [] = some e) {e' : Entry} (found : row xs = some e')
    (version : e'.version = e.version) : Unwritten row written e xs := by
  rcases unwritten_or_newer step gone seen with unwritten | ⟨_, newer, later⟩ | none_left
  · exact unwritten
  · rw [found] at newer
    obtain rfl := Option.some.inj newer
    omega
  · rw [found] at none_left
    cases none_left

end History

/-! ## Replacing a row that was seen -/

/-- A row is replaced only in the version in which it was seen. -/
theorem State.replaceRow_ok {expected : Nat} {stored : Entry}
    (replaced : (s.perform (.replaceRow next expected)).1 = .ok stored) :
    ∃ current, s.catalog.get? next.id = some current ∧ current.version = expected ∧
      stored = { next with version := expected + 1 } ∧
      (s.perform (.replaceRow next expected)).2.catalog.rows =
        Assoc.put next.id stored s.catalog.rows := by
  simp only [perform, replaceRow] at replaced ⊢
  split at replaced
  · cases replaced
  · next fault _ =>
    rcases s.catalog.replace_cases next expected
      with ⟨failure, unchanged⟩ | ⟨current, c', done, -, found, version, -, rows, -⟩
    · simp only [unchanged] at replaced
      cases replaced
    · simp only [done] at replaced ⊢
      obtain rfl := Except.ok.inj replaced
      exact ⟨current, found, version, rfl, rows⟩

/-- A row that is gone, or is there in another version, is not replaced, and nothing changes in the
catalogue. -/
theorem State.replaceRow_refused {expected : Nat}
    (changed : ∀ current, s.catalog.get? next.id = some current → current.version ≠ expected) :
    ∃ failure, (s.perform (.replaceRow next expected)).1 = .error failure ∧
      (s.perform (.replaceRow next expected)).2.catalog = s.catalog ∧
      (failure = .ruleNotFound next.id ∨
        (∃ found, failure = .versionConflict next.id expected found) ∨
        ∃ defect, failure = .invalidRule defect) := by
  simp only [perform, replaceRow]
  split
  · exact ⟨_, rfl, rfl, .inr (.inl ⟨_, rfl⟩)⟩
  · simp only [Catalog.replace]
    split
    · next failure invalid =>
      refine ⟨failure, rfl, rfl, .inr (.inr ?_)⟩
      unfold Entry.validate at invalid
      split at invalid
      · next defect _ => exact ⟨defect, (Except.error.inj invalid).symm⟩
      · cases invalid
    · split
      · exact ⟨_, rfl, rfl, .inl rfl⟩
      · next current found =>
        rw [if_pos (changed current found)]
        exact ⟨_, rfl, rfl, .inr (.inl ⟨_, rfl⟩)⟩

end Cohort
