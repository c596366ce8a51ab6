import Cohort.Proofs.Calendar.Times
import Cohort.Proofs.Run.Conduct

/-!
# The times of rows

The row of a rule says up to which time its table is complete. While the clock does not go back, no
row claims more than the rows of the operands do. Each refresh that a run writes down keeps to this:
its time is not before the one that was in the row, so that tables get more complete and never less.

## Main definitions

* `Catalog.asOf?`, `Catalog.CompleteUntil` — the time up to which a table is complete
* `Catalog.IsEarliest`, `Catalog.DatedByOperands` — a combination is as complete as its operands are
* `Dated` — no row claims more than the rows of the operands do
* `RowsStay` — what can change beside runs
* `Suits`, `Protocol.dating` — runs write down no other times than these
* `Abreast` — a rule is as complete as its operands, as it is after a run

## Main results

* `Dated.upstream` — the tables that a table depends on, directly or through others
* `Dated.perform` — what one request preserves
* `follows_rowsStay_bind` — a request that leaves rows alone, and the rest after it
-/

namespace Cohort

open Cohort.Action

variable {id : RuleId} {c : Catalog} {s s' s'' x : State} {e : Entry} {t u : Instant}
  {r : Request} {operands : List RuleId}

/-! ## Rows and their times -/

/-- The time up to which the table of a rule is complete, as its row says. -/
def Catalog.asOf? (c : Catalog) (id : RuleId) : Option Instant :=
  (c.get? id).bind fun e => e.segment.dataAsOf

/-- The table of the rule is complete up to this time at least. -/
def Catalog.CompleteUntil (c : Catalog) (id : RuleId) (t : Instant) : Prop :=
  ∃ t', c.asOf? id = some t' ∧ t ≤ t'

/-- Of the times up to which the tables of these rules are complete, this is the earliest. -/
structure Catalog.IsEarliest (c : Catalog) (rules : List RuleId) (t : Instant) : Prop where
  bound : ∀ a ∈ rules, c.CompleteUntil a t
  attained : ∃ a ∈ rules, c.asOf? a = some t

/-- If the segment of the rule is combined from others, then its table is complete up to the
earliest of the times up to which theirs are. -/
def Catalog.DatedByOperands (c : Catalog) (id : RuleId) : Prop :=
  ∃ e, c.get? id = some e ∧ ∀ operands, e.segment.source.dependsOn? = some operands →
    ∃ t, e.segment.dataAsOf = some t ∧ c.IsEarliest operands t

theorem Catalog.asOf?_eq_some :
    c.asOf? id = some t ↔ ∃ e, c.get? id = some e ∧ e.segment.dataAsOf = some t :=
  Option.bind_eq_some_iff

theorem Catalog.asOf?_of_get? (found : c.get? id = some e) : c.asOf? id = e.segment.dataAsOf := by
  rw [asOf?, found, Option.bind_some]

theorem Catalog.CompleteUntil.earlier (h : c.CompleteUntil id u) (before : t ≤ u) :
    c.CompleteUntil id t := by
  obtain ⟨t', written, later⟩ := h
  exact ⟨t', written, Instant.le_trans before later⟩

theorem Entry.parents_of_dependsOn? (h : e.segment.source.dependsOn? = some operands) :
    e.parents = operands := by
  rw [Entry.parents, SegmentSource.parents, h, Option.getD_some]

/-- The times of a row. Both are there or none is, the table is not more complete than it is new,
and it is not more complete than the tables it was computed from. -/
structure Entry.IsDated (e : Entry) (s : State) : Prop where
  together : e.segment.dataAsOf.isSome = e.segment.lastRefreshedAt.isSome
  notLater : ∀ t u, e.segment.dataAsOf = some t → e.segment.lastRefreshedAt = some u → t ≤ u
  shown : ∀ t, e.segment.dataAsOf = some t → s.clock.HasShown t
  operands : ∀ t, e.segment.dataAsOf = some t → ∀ d ∈ e.parents, s.catalog.CompleteUntil d t

/-- The clock does not go back, and all rows say of their tables what can be said. -/
structure Dated (c : Catalog) (s : State) : Prop extends Stands c s where
  onwards : s.clock.NeverGoesBack
  rows : ∀ id e, s.catalog.get? id = some e → e.IsDated s

/-- How the segment of a rule is computed stays the same. -/
theorem Stands.exists_source (h : Stands c s) (h' : Stands c s')
    (found : s.catalog.get? id = some e) :
    ∃ e', s'.catalog.get? id = some e' ∧ e'.segment.source = e.segment.source := by
  obtain ⟨e', found', same⟩ := (h'.same.symm.trans h.same).exists_get? found
  refine ⟨e', found', ?_⟩
  rw [← e'.definition_source, same, e.definition_source]

/-- What is read for the time of a table is what its row says. -/
theorem Entry.IsDated.asOf (h : e.IsDated s) :
    (e.segment.dataAsOf <|> e.segment.lastRefreshedAt) = e.segment.dataAsOf := by
  have together := h.together
  cases written : e.segment.dataAsOf with
  | some t => rfl
  | none =>
    rw [written] at together
    exact Option.isNone_iff_eq_none.mp (by simpa using together.symm)

theorem Dated.shown (h : Dated c s) (written : s.catalog.asOf? id = some t) :
    s.clock.HasShown t := by
  obtain ⟨e, found, written⟩ := Catalog.asOf?_eq_some.mp written
  exact (h.rows id e found).shown t written

/-- A table is not more complete than any that it depends on, directly or through others. -/
theorem Dated.upstream (h : Dated c s) (written : s.catalog.asOf? id = some t) {a : RuleId}
    (reached : Relation.TransGen (DependsOn s.catalog.list) id a) :
    s.catalog.CompleteUntil a t := by
  -- A row says this of the operands of its rule, and so on from there.
  have step : ∀ {b a : RuleId} {u : Instant}, s.catalog.asOf? b = some u →
      DependsOn s.catalog.list b a → s.catalog.CompleteUntil a u := by
    rintro b a u written ⟨e, listed, rfl, parent⟩
    have found := h.indexed.mem_list.mp listed
    rw [Catalog.asOf?_of_get? found] at written
    exact (h.rows _ e found).operands u written a parent
  induction reached with
  | single depends => exact step written depends
  | tail _ depends ih =>
    obtain ⟨u, written', before⟩ := ih
    exact (step written' depends).earlier before

/-! ## What can change beside runs -/

/-- Rows are changed by runs only, and the clock goes on. All else can change: transactions and
tables, what fails and what does not, locks, jobs and events. -/
structure RowsStay (s s' : State) : Prop where
  catalog : s'.catalog = s.catalog
  clock : s.clock.GoesOn s'.clock

theorem RowsStay.refl (s : State) : RowsStay s s := ⟨rfl, .refl _⟩

theorem RowsStay.trans (h : RowsStay s s') (h' : RowsStay s' s'') : RowsStay s s'' :=
  ⟨h'.catalog.trans h.catalog, h.clock.trans h'.clock⟩

/-- A program that runs alone. -/
theorem RowsStay.of_run {α : Type} (p : Program α) (s : State) :
    p.EndsAmong RowsStay s (p.run s).1 (p.run s).2 :=
  p.endsAmong_run .refl s

theorem State.perform_rowsStay (quiet : r.leavesCatalog = true) (s : State) :
    RowsStay s (s.perform r).2 :=
  ⟨s.perform_catalog quiet, s.perform_goesOn r⟩

theorem Dated.stays (h : Dated c s) (stay : RowsStay s s') : Dated c s' where
  indexed := stay.catalog ▸ h.indexed
  same := stay.catalog ▸ h.same
  onwards := stay.clock.neverGoesBack_iff.mpr h.onwards
  rows id e found := by
    rw [stay.catalog] at found
    have dated := h.rows id e found
    refine ⟨dated.together, dated.notLater, fun t written => ?_, fun t written d parent => ?_⟩
    · exact (dated.shown t written).goesOn stay.clock
    · rw [stay.catalog]
      exact dated.operands t written d parent

/-! ## Writing down a refresh -/

/-- The time can be written down as the one up to which the table of the rule is complete. It is not
before the time in its row, and for a combination it is the earliest of the operands' times. -/
structure Suits (s : State) (id : RuleId) (t : Instant) : Prop where
  shown : s.clock.HasShown t
  onwards : ∀ u, s.catalog.asOf? id = some u → u ≤ t
  earliest : ∀ e operands, s.catalog.get? id = some e →
    e.segment.source.dependsOn? = some operands → s.catalog.IsEarliest operands t

theorem Suits.stays (h : Suits s id t) (stay : RowsStay s s') : Suits s' id t where
  shown := h.shown.goesOn stay.clock
  onwards := stay.catalog ▸ h.onwards
  earliest := stay.catalog ▸ h.earliest

/-- What the earliest time of the operands is suits their combination. -/
theorem Dated.suits_of_isEarliest (h : Dated c s) (found : s.catalog.get? id = some e)
    (source : e.segment.source.dependsOn? = some operands)
    (earliest : s.catalog.IsEarliest operands t) : Suits s id t where
  shown := by
    obtain ⟨a, -, written⟩ := earliest.attained
    exact h.shown written
  onwards u written := by
    -- The row claims no more than that of any operand, so no more than the earliest of them.
    obtain ⟨a, operand, least⟩ := earliest.attained
    rw [Catalog.asOf?_of_get? found] at written
    rw [← Entry.parents_of_dependsOn? source] at operand
    obtain ⟨t', written', before⟩ := (h.rows id e found).operands u written a operand
    obtain rfl := Option.some.inj (least.symm.trans written')
    exact before
  earliest e' operands' found' source' := by
    obtain rfl := Option.some.inj (found.symm.trans found')
    obtain rfl := Option.some.inj (source.symm.trans source')
    exact earliest

section Refreshed

variable {refresh : Refresh}
  (rows : s'.catalog.rows = Assoc.put id (e.refreshed refresh) s.catalog.rows)

include rows

theorem Catalog.asOf?_refreshed (a : RuleId) :
    s'.catalog.asOf? a = if id = a then some refresh.dataAsOf else s.catalog.asOf? a := by
  rw [asOf?, get?_of_put_at rows]
  split
  · rfl
  · rfl

/-- Tables get more complete and never less. -/
theorem Suits.completeUntil (suits : Suits s id refresh.dataAsOf) {a : RuleId}
    (h : s.catalog.CompleteUntil a t) : s'.catalog.CompleteUntil a t := by
  obtain ⟨u, written, before⟩ := h
  rw [Catalog.CompleteUntil, Catalog.asOf?_refreshed rows]
  split
  -- The time in the row of the rule has not gone back, and all other rows are the same.
  · next same =>
    subst same
    exact ⟨_, rfl, Instant.le_trans before (suits.onwards u written)⟩
  · exact ⟨u, written, before⟩

theorem Suits.isEarliest (suits : Suits s id refresh.dataAsOf)
    (h : s.catalog.IsEarliest operands refresh.dataAsOf) :
    s'.catalog.IsEarliest operands refresh.dataAsOf where
  bound a operand := suits.completeUntil rows (h.bound a operand)
  attained := by
    obtain ⟨a, operand, least⟩ := h.attained
    refine ⟨a, operand, ?_⟩
    rw [Catalog.asOf?_refreshed rows, least, ite_self]

/-- After a refresh, a combination is as complete as its operands are. -/
theorem Suits.datedByOperands (suits : Suits s id refresh.dataAsOf)
    (found : s.catalog.get? id = some e) : s'.catalog.DatedByOperands id := by
  refine ⟨e.refreshed refresh, ?_, fun operands source => ?_⟩
  · rw [Catalog.get?_of_put_at rows, if_pos rfl]
  · exact ⟨_, rfl, suits.isEarliest rows (suits.earliest e operands found source)⟩

/-- A refresh with a time that suits leaves all rows dated, the one that is written and those of the
rules that combine it. -/
theorem Dated.of_refresh (h : Dated c s) (suits : Suits s id refresh.dataAsOf)
    (notLater : refresh.dataAsOf ≤ refresh.refreshedAt) (found : s.catalog.get? id = some e)
    (stands : Stands c s') (clock : s.clock.GoesOn s'.clock) : Dated c s' where
  toStands := stands
  onwards := clock.neverGoesBack_iff.mpr h.onwards
  rows a e' found' := by
    rw [Catalog.get?_of_put_at rows] at found'
    split at found'
    -- The row that is written.
    · obtain rfl := Option.some.inj found'
      refine ⟨rfl, ?_, ?_, ?_⟩
      · rintro _ _ ⟨⟩ ⟨⟩
        exact notLater
      · rintro _ ⟨⟩
        exact suits.shown.goesOn clock
      · rintro _ ⟨⟩ d parent
        change d ∈ e.parents at parent
        cases source : e.segment.source.dependsOn? with
        | none =>
          rw [Entry.parents, SegmentSource.parents, source] at parent
          cases parent
        | some operands =>
          rw [Entry.parents_of_dependsOn? source] at parent
          exact suits.completeUntil rows ((suits.earliest e operands found source).bound d parent)
    -- Any other row. If it combines the rule, then the rule is more complete now than before.
    · have dated := h.rows a e' found'
      refine ⟨dated.together, dated.notLater, fun t written => ?_, fun t written d parent => ?_⟩
      · exact (dated.shown t written).goesOn clock
      · exact suits.completeUntil rows (dated.operands t written d parent)

end Refreshed

/-- All rows are dated, and the table of the rule is as complete as those of its operands. -/
structure Abreast (c : Catalog) (id : RuleId) (s : State) : Prop extends Dated c s where
  byOperands : s.catalog.DatedByOperands id

theorem Abreast.stays (h : Abreast c id s) (stay : RowsStay s s') : Abreast c id s' :=
  ⟨h.toDated.stays stay, stay.catalog ▸ h.byOperands⟩

/-! ## The requests of a run -/

/-- The request leaves all rows alone, or it writes down a refresh with times that suit. -/
def Request.Fits (s : State) : Request → Prop
  | .recordRefresh id refresh =>
    refresh.dataAsOf ≤ refresh.refreshedAt ∧ Suits s id refresh.dataAsOf
  | r => r.leavesCatalog = true

theorem Request.leavesCatalog_of_ofReading (read : r.ofReading = true) :
    r.leavesCatalog = true := by
  cases r <;> simp_all [ofReading, leavesCatalog]

theorem Request.Fits.stays (h : r.Fits s) (stay : RowsStay s s') : r.Fits s' := by
  cases r
  case recordRefresh id refresh => exact ⟨h.1, h.2.stays stay⟩
  all_goals exact h

/-- What a request of a run leaves is dated. -/
theorem Dated.perform (h : Dated c s) (fits : r.Fits s) : Dated c (s.perform r).2 := by
  by_cases quiet : r.leavesCatalog = true
  · exact h.stays (s.perform_rowsStay quiet)
  · cases r
    case recordRefresh id refresh =>
      have clock := s.perform_goesOn (.recordRefresh id refresh)
      rcases s.perform_recordRefresh_outcome id refresh with ⟨_, -, still⟩ | ⟨-, e, found, rows⟩
      · exact h.stays ⟨still.catalog, clock⟩
      · have kept := s.perform_definitions (r := .recordRefresh id refresh) rfl
        have stands : Stands c (s.perform (.recordRefresh id refresh)).2 :=
          ⟨kept.1 h.indexed, h.same.trans (kept.2 h.indexed)⟩
        exact h.of_refresh rows fits.2 fits.1 found stands clock
    all_goals exact absurd fits quiet

/-- Requests fit, and rows change between them by no one else. -/
abbrev Protocol.dating : Protocol State := .guarded RowsStay fun s r => r.Fits s

theorem Protocol.dating_admits (quiet : r.leavesCatalog = true) : Protocol.dating.Admits x r := by
  cases r <;> first | exact quiet | cases quiet

section Requests

variable {α β : Type} {good : β → State → Prop} {bad : State → Prop}

/-- A program that leaves all rows alone, after others that do. -/
theorem follows_rowsStay {a : Action α} (asks : a.Asks fun r => r.leavesCatalog = true)
    (before : RowsStay s x) : a.Follows .dating x (fun _ => RowsStay s) (RowsStay s) := by
  apply asks.follows (RowsStay s) _ before
  intro r x₁ quiet stay₁
  refine ⟨Protocol.dating_admits quiet, ?_⟩
  rintro _ _ ⟨x₂, stay₂, -, rfl⟩
  exact (stay₁.trans stay₂).trans (x₂.perform_rowsStay quiet)

/-- A request that leaves all rows alone can have any answer. -/
theorem follows_rowsStay_bind (quiet : r.leavesCatalog = true) {f : r.Answer → Action β}
    (h : ∀ answer x', RowsStay x x' → (f answer).Follows .dating x' good bad) :
    (Action.call r >>= f).Follows .dating x good bad := by
  refine follows_call_bind.mpr ⟨Protocol.dating_admits quiet, ?_⟩
  rintro _ _ ⟨x₁, stay, rfl, rfl⟩
  exact h _ _ (stay.trans (x₁.perform_rowsStay quiet))

/-- The row that is read is the one that is there. -/
theorem follows_getRow_rowsStay {f : Option Entry → Action β}
    (h : ∀ x', RowsStay x x' → (f (x.catalog.get? id)).Follows .dating x' good bad) :
    (Action.call (.getRow id) >>= f).Follows .dating x good bad := by
  refine follows_call_bind.mpr ⟨Protocol.dating_admits rfl, ?_⟩
  rintro row x' ⟨x₁, stay, rfl, same⟩
  obtain rfl : x' = x₁ := same
  change (f (x'.catalog.get? id)).Follows .dating x' good bad
  rw [stay.catalog]
  exact h x' stay

/-- The time that is read is not before any that was shown. -/
theorem follows_now_rowsStay (dated : Dated c x) {f : Instant → Action β}
    (h : ∀ now x', RowsStay x x' → x'.clock.HasShown now → (∀ t, x.clock.HasShown t → t ≤ now) →
      (f now).Follows .dating x' good bad) :
    (Action.call .now >>= f).Follows .dating x good bad := by
  refine follows_call_bind.mpr ⟨Protocol.dating_admits rfl, ?_⟩
  rintro _ _ ⟨x₁, stay, rfl, rfl⟩
  refine h _ _ (stay.trans (x₁.perform_rowsStay rfl)) x₁.clock.hasShown_read fun t shown => ?_
  exact (stay.clock.neverGoesBack_iff.mpr dated.onwards).le_read (shown.goesOn stay.clock)

end Requests

end Cohort
