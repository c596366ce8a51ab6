import Mathlib.Data.Finset.Card
import Cohort.Engine
import Cohort.Proofs.Lineage.Collect

/-!
# What segments denote

The rows of a segment follow from the transactions and from the definitions of the rules alone:
a query selects rows by itself, and a combination takes the rows of its operands. Where no rule
depends on itself, this determines the rows of every segment, whatever is in the tables.

## Main definitions

* `SegmentSource.rows` — the rows of a segment, given those of its operands
* `meaning` — the rows of every segment

## Main results

* `meaning_eq` — the denotation of a rule is computed from those of its dependencies
-/

namespace Cohort

/-- The users in all the rows that a query selects as well, if it tests anything at all. -/
def narrowed (ts : List Transaction) (residual : Option Query) (combined : Dataset) : Dataset :=
  match residual.filter fun q => !q.isUnfiltered with
  | none => combined
  | some q => Dataset.intersect combined (Dataset.dropNull (q.evaluate ts))

/-- The rows of a segment over some transactions, given the rows of its operands. -/
def SegmentSource.rows (ts : List Transaction) (operands : RuleId → Dataset) :
    SegmentSource → Dataset
  | .base q => Dataset.dropNull (q.evaluate ts)
  | .composite dependsOn operation residual =>
    match Dataset.combine operation (dependsOn.map operands) with
    | .ok combined => narrowed ts residual combined
    | .error _ => []

/-- The rows of a rule, where so many steps of dependencies are followed. -/
def denoteWithin (entries : List Entry) (ts : List Transaction) : Nat → RuleId → Dataset
  | 0, _ => []
  | n + 1, id =>
    match Entry.lookup? entries id with
    | none => []
    | some e => e.segment.source.rows ts (denoteWithin entries ts n)

/-- The rows that the segment of a rule stands for. No chain of dependencies is longer than there
are rules. -/
def meaning (entries : List Entry) (ts : List Transaction) (id : RuleId) : Dataset :=
  denoteWithin entries ts entries.length id

variable {entries : List Entry} {ts : List Transaction} {a b id : RuleId}

/-- Only the rows of the operands matter. -/
theorem SegmentSource.rows_congr {source : SegmentSource} {f g : RuleId → Dataset}
    (agree : ∀ p ∈ source.parents, f p = g p) : source.rows ts f = source.rows ts g := by
  cases source with
  | base q => rfl
  | composite dependsOn operation residual =>
    have operands : dependsOn.map f = dependsOn.map g := List.map_congr_left agree
    rw [rows, rows, operands]

/-- The listed rules that a rule depends on through any number of steps. -/
private noncomputable def upstream (entries : List Entry) (id : RuleId) : Finset RuleId := by
  classical
  exact (entries.map Entry.id).toFinset.filter fun b => Relation.TransGen (DependsOn entries) id b

private theorem mem_upstream : b ∈ upstream entries a ↔
    (∃ e ∈ entries, e.id = b) ∧ Relation.TransGen (DependsOn entries) a b := by
  simp [upstream]

private theorem card_upstream_lt (acyclic : Acyclic entries) (hab : DependsOn entries a b)
    (listed : ∃ e ∈ entries, e.id = b) :
    (upstream entries b).card < (upstream entries a).card := by
  refine Finset.card_lt_card (Finset.ssubset_iff_of_subset ?_ |>.mpr ⟨b, ?_, ?_⟩)
  · intro x hx
    obtain ⟨listed_x, hbx⟩ := mem_upstream.mp hx
    exact mem_upstream.mpr ⟨listed_x, .head hab hbx⟩
  · exact mem_upstream.mpr ⟨listed, .single hab⟩
  · intro hb
    exact acyclic b (mem_upstream.mp hb).2

private theorem card_upstream_lt_length (acyclic : Acyclic entries)
    (listed : ∃ e ∈ entries, e.id = a) : (upstream entries a).card < entries.length := by
  classical
  have missing : a ∉ upstream entries a := fun ha => acyclic a (mem_upstream.mp ha).2
  have subset : insert a (upstream entries a) ⊆ (entries.map Entry.id).toFinset := by
    refine Finset.insert_subset_iff.mpr ⟨by simpa using listed, fun x hx => ?_⟩
    simpa using (mem_upstream.mp hx).1
  have bound := Finset.card_le_card subset
  rw [Finset.card_insert_of_notMem missing] at bound
  have := (entries.map Entry.id).toFinset_card_le
  rw [List.length_map] at this
  omega

theorem denoteWithin_of_not_listed (missing : Entry.lookup? entries id = none) (n : Nat) :
    denoteWithin entries ts n id = [] := by
  cases n with
  | zero => rfl
  | succ n => rw [denoteWithin, missing]

/-- One step more makes no difference where all chains of dependencies have ended. -/
private theorem denoteWithin_succ (acyclic : Acyclic entries) :
    ∀ (n : Nat) (id : RuleId), (upstream entries id).card < n →
      denoteWithin entries ts n id = denoteWithin entries ts (n + 1) id := by
  intro n
  induction n with
  | zero => exact fun id h => absurd h (Nat.not_lt_zero _)
  | succ n ih =>
    intro id hn
    cases found : Entry.lookup? entries id with
    | none => rw [denoteWithin_of_not_listed found, denoteWithin_of_not_listed found]
    | some e =>
      obtain ⟨he, rfl⟩ := lookup?_eq_some found
      rw [denoteWithin, denoteWithin, found]
      refine SegmentSource.rows_congr fun p hp => ?_
      cases listed : Entry.lookup? entries p with
      | none => rw [denoteWithin_of_not_listed listed, denoteWithin_of_not_listed listed]
      | some e' =>
        have := card_upstream_lt acyclic (.of_mem he hp) ⟨e', lookup?_eq_some listed⟩
        exact ih p (by omega)

/-- The denotation of a rule is computed from the denotations of its dependencies. -/
theorem meaning_eq (acyclic : Acyclic entries) (distinct : (entries.map Entry.id).Nodup)
    {e : Entry} (he : e ∈ entries) :
    meaning entries ts e.id = e.segment.source.rows ts (meaning entries ts) := by
  have within := card_upstream_lt_length acyclic ⟨e, he, rfl⟩
  rw [meaning, denoteWithin_succ acyclic _ _ within, denoteWithin,
    lookup?_of_mem distinct he]
  rfl

end Cohort
