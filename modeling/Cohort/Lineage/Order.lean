import Cohort.Lineage.Countdown

/-!
# Execution order

Segments are computed after the segments they depend on. Of several that could come
next, the one with the lowest identifier does. Rules on a cycle, or behind one, have
no place in the order.

## Main definitions

* `ExecutionOrder` — the rules in order, and those without a place
* `Entry.countdown?` — gives the rules of some entries their places
* `executionOrder` — the order of some entries
-/

namespace Cohort

/-- Rules in an order that respects their dependencies, and the rules that have no place. -/
structure ExecutionOrder where
  ordered : List RuleId
  cyclic : List RuleId
  deriving DecidableEq, Repr

namespace Entry

/-- The identifiers of some entries, each once and in ascending order. -/
def ids (entries : List Entry) : List RuleId := RuleId.ascending (entries.map Entry.id)

/-- Counts down the dependencies among some entries. -/
def countdown? (entries : List Entry) : Option Countdown :=
  let links := links entries
  (Countdown.start (ids entries) links).run? links (ids entries).length

variable {entries : List Entry}

theorem mem_ids {x : RuleId} : x ∈ ids entries ↔ ∃ e ∈ entries, e.id = x := by
  simp [ids]

theorem mem_links {l : LineageEdge} :
    l ∈ links entries ↔
      ∃ e ∈ entries, e.id = l.child ∧ l.parent ∈ e.parents ∧ l.parent ∈ ids entries := by
  simp only [links, List.mem_flatMap, List.mem_map, RuleId.mem_ascending, List.mem_filter,
    List.any_eq_true, decide_eq_true_eq, mem_ids]
  constructor
  · rintro ⟨e, he, p, ⟨hp, listed⟩, rfl⟩
    exact ⟨e, he, rfl, hp, listed⟩
  · rintro ⟨e, he, hid, hp, listed⟩
    exact ⟨e, he, l.parent, ⟨hp, listed⟩, by rw [hid]⟩

/-- The countdown comes to its end. What holds of no places holds of all places in the end, if it
goes on to hold whenever the lowest available rule gets the next place. -/
theorem exists_countdown? (entries : List Entry) {P : List RuleId → Prop}
    (step : ∀ placed id, Countdown.Available (ids entries) (links entries) placed id →
      (∀ x, Countdown.Available (ids entries) (links entries) placed x → id ≤ x) →
      P placed → P (placed ++ [id])) (start : P []) :
    ∃ c, countdown? entries = some c ∧
      (∀ id, ¬ Countdown.Available (ids entries) (links entries) c.placed id) ∧ P c.placed := by
  have listed : ∀ l ∈ links entries, l.child ∈ ids entries := fun l hl => by
    obtain ⟨e, he, hid, -⟩ := mem_links.mp hl
    exact mem_ids.mpr ⟨e, he, hid⟩
  have valid : Countdown.Valid (ids entries) (links entries)
      (.start (ids entries) (links entries)) :=
    Countdown.valid_start (RuleId.pairwise_ascending (entries.map Entry.id))
  have all_open : Countdown.opened (links entries) [] = links entries := by
    simp [Countdown.opened]
  obtain ⟨c, ran, valid', none_ready, holds⟩ := Countdown.Valid.exists_run? listed step
    (ids entries).length (.start (ids entries) (links entries))
    (by rwa [Countdown.start, all_open]) (List.length_filter_le ..) start
  refine ⟨c, ran, fun id available => ?_, holds⟩
  have ready := valid'.mem_ready.mpr available
  rw [none_ready] at ready
  cases ready

theorem isSome_countdown? (entries : List Entry) : (countdown? entries).isSome := by
  obtain ⟨c, counted, -⟩ := exists_countdown? entries (P := fun _ => True)
    (fun _ _ _ _ _ => trivial) trivial
  rw [counted]
  rfl

end Entry

/-- The execution order of some entries. Dependencies on rules that are not among them count as
fulfilled. -/
def executionOrder (entries : List Entry) : ExecutionOrder :=
  let placed := ((Entry.countdown? entries).get (Entry.isSome_countdown? entries)).placed
  ⟨placed, (Entry.ids entries).filter fun id => id ∉ placed⟩

end Cohort
