import Cohort.Proofs.Lineage.Graph
import Cohort.Proofs.Lineage.Order
import Cohort.Proofs.Manager.Mutations
import Cohort.Proofs.Run.Definitions
import Cohort.Proofs.Text.Trim

/-!
# Histories of a system

A system starts with an empty catalogue. Operations are then applied one after the other, and
between them the world outside can change. Every catalogue that comes up this way is sound:
dependencies have rows, nothing depends on itself, and names and tables are as they should be.

## Main definitions

* `Operation` — what can be asked of a system, and `Operation.apply`
* `Reachable` — the states of a system
* `Catalog.Regular` — sound, with names and tables in order
* `Catalog.Step` — what an operation can make of a catalogue

## Main results

* `Operation.apply_step` — an operation takes one step
* `Operation.apply_regular` — an operation keeps a catalogue regular, whether it fails or not
* `reachable_sound` — all reachable catalogues are sound
-/

namespace Cohort

/-! ## Operations -/

/-- Asks for a run by hand, and carries out the runs that wait. -/
def State.runByHand (setup : Setup) (id : RuleId) (s : State) : State :=
  let s := ((trigger setup id).outcome.run s).2
  s.board.manual.foldl (fun s run => ((manualRun setup run).run s).2) s

/-- What can be asked of a system. -/
inductive Operation where
  | create (draft : RuleDraft)
  | update (id : RuleId) (patch : RulePatch)
  | delete (id : RuleId)
  | pass
  | runByHand (id : RuleId)

/-- The state after an operation, whether it succeeds or fails. -/
def Operation.apply (setup : Setup) (s : State) : Operation → State
  | .create draft => ((createRule setup draft).outcome.run s).2
  | .update id patch => ((updateRule setup id patch).outcome.run s).2
  | .delete id => ((deleteRule setup id).outcome.run s).2
  | .pass => ((runPass setup).run s).2
  | .runByHand id => s.runByHand setup id

/-- A change as an operation, which does not say whether it fails. -/
def Mutation.operation : Mutation → Operation
  | .create draft => .create draft
  | .update id patch => .update id patch
  | .delete id => .delete id

theorem Mutation.apply_operation {setup : Setup} (m : Mutation) (s : State) :
    m.operation.apply setup s = ((m.program setup).run s).2 := by
  cases m <;> rw [operation, Operation.apply, program, run_failure?]

/-- The states of a system to which operations are applied one after the other. Between them the
state can change as `Outside` says. -/
inductive Reachable (setup : Setup) (Outside : State → State → Prop) : State → Prop
  | start (clock : Clock) (engine : Engine) : Reachable setup Outside (setup.start clock engine)
  | apply {s : State} (operation : Operation) (h : Reachable setup Outside s) :
      Reachable setup Outside (operation.apply setup s)
  | outside {s s' : State} (h : Reachable setup Outside s) (change : Outside s s') :
      Reachable setup Outside s'

/-- Any operations can be applied one after the other. -/
theorem Reachable.applyAll {setup : Setup} {Outside : State → State → Prop} {s : State}
    (h : Reachable setup Outside s) (operations : List Operation) :
    Reachable setup Outside (operations.foldl (Operation.apply setup) s) := by
  induction operations generalizing s with
  | nil => exact h
  | cons first rest ih => exact ih (h.apply first)

/-! ## Regular catalogues -/

/-- The name of the rule is trimmed, and the table is named after the rule. -/
structure Entry.IsNamed (naming : Settings.Naming) (e : Entry) : Prop where
  trimmed : Text.trim e.rule.name = e.rule.name
  table : e.segment.table = naming.tableName e.id

/-- The catalogue is sound, and names and tables are in order. -/
structure Catalog.Regular (naming : Settings.Naming) (c : Catalog) : Prop where
  sound : c.Sound
  named : ∀ e ∈ c.list, e.IsNamed naming

namespace Catalog.Regular

variable {setup : Setup} {naming : Settings.Naming} {c c' : Catalog} {e : Entry} {id : RuleId}

theorem empty : ({} : Catalog).Regular naming :=
  ⟨sound_empty, by simp [mem_list_iff]⟩

theorem of_rows_eq (h : c.Regular naming) (hr : c'.rows = c.rows) : c'.Regular naming := by
  have same_list : c'.list = c.list := by rw [Catalog.list, Catalog.list, hr]
  exact ⟨h.sound.of_rows_eq hr, by rw [same_list]; exact h.named⟩

theorem of_sameDefinitions (h : c.Regular naming) (keeps : c.KeepsTo c') :
    c'.Regular naming := by
  have indexed := keeps.1 h.sound.indexed
  have same := keeps.2 h.sound.indexed
  refine ⟨h.sound.of_sameDefinitions indexed same, fun e' he' => ?_⟩
  obtain ⟨e, he, hdef⟩ := same.exists_mem h.sound.indexed indexed he'
  obtain ⟨trimmed, table⟩ := h.named e he
  refine ⟨?_, ?_⟩
  · rw [← e'.definition_name, ← hdef]
    exact trimmed
  · rw [← e'.definition_table, ← e'.definition_id, ← hdef]
    exact table

/-- A named row can be put in place as in any sound catalogue. -/
theorem put (h : c.Regular naming) (hr : c'.rows = Assoc.put e.id e c.rows)
    (valid : e.validate = .ok ()) (named : e.IsNamed naming)
    (present : ∀ p ∈ e.parents, (c.get? p).isSome)
    (edges : (∃ old, c.get? e.id = some old ∧ old.parents = e.parents) ∨
      ∀ a, a ≠ e.id → ¬ DependsOn c.list a e.id) : c'.Regular naming := by
  refine ⟨h.sound.put hr valid present edges, fun x hx => ?_⟩
  rcases (h.sound.indexed.mem_list_put hr).mp hx with rfl | ⟨hx, -⟩
  · exact named
  · exact h.named x hx

theorem of_created {d : RuleDraft} {now : Instant} (h : c.Regular setup.naming)
    (created : Created setup d c now e c') : c'.Regular setup.naming := by
  obtain ⟨p, planned, he⟩ := created.planned
  refine h.put created.rows created.valid ?_ ?_ (.inr fun a _ =>
    h.sound.not_dependsOn_of_get?_eq_none created.fresh a)
  · rw [he]
    exact ⟨Text.trim_trim _, rfl⟩
  · intro q hq
    rw [he] at hq
    exact (planned.parents h.sound.indexed hq).1

theorem of_updated {patch : RulePatch} {now : Instant} {stored : Entry}
    (h : c.Regular setup.naming) (updated : Updated setup id patch c now stored c') :
    c'.Regular setup.naming := by
  obtain ⟨current, next, found, patched, rfl, -⟩ := updated.patched
  obtain ⟨hcurrent, rfl⟩ := h.sound.indexed.get?_eq_some.mp found
  obtain ⟨trimmed, table⟩ := h.named current hcurrent
  have same_id : next.id = current.id := patched.id_eq
  refine h.put updated.rows updated.valid ⟨?_, ?_⟩ ?_ ?_
  -- The name was trimmed before, or it is trimmed now.
  · rcases patched.name_cases with hname | ⟨name, hname⟩
    · rw [hname]
      exact trimmed
    · rw [hname]
      exact Text.trim_trim name
  · exact patched.table_eq.trans (table.trans (congrArg _ same_id.symm))
  · rw [Entry.parents_version]
    rcases patched.parents_cases h.sound.indexed with same | ⟨-, present⟩
    · rw [same]
      exact h.sound.present current hcurrent
    · exact present
  -- Dependencies change only where nothing depends on the rule.
  · rw [Entry.id_version, Entry.parents_version, same_id]
    rcases patched.parents_cases h.sound.indexed with same | ⟨free, -⟩
    · exact .inl ⟨current, found, same.symm⟩
    · exact .inr fun a ha => not_dependsOn_of_dependents_eq_nil free ha

theorem of_restored {current restored : Entry} {version : Nat} (h : c.Regular naming)
    (found : c.get? id = some current) (same : restored = { current with version })
    (valid : restored.validate = .ok ())
    (hr : c'.rows = Assoc.put restored.id restored c.rows) : c'.Regular naming := by
  subst same
  obtain ⟨hcurrent, rfl⟩ := h.sound.indexed.get?_eq_some.mp found
  have named := h.named current hcurrent
  exact h.put hr valid ⟨named.trimmed, named.table⟩ (h.sound.present current hcurrent)
    (.inl ⟨current, found, rfl⟩)

theorem of_deleted (h : c.Regular naming) (deleted : Deleted id c e c') :
    c'.Regular naming := by
  refine ⟨h.sound.erase deleted.rows fun a ha =>
    not_dependsOn_of_dependents_eq_nil deleted.free ha, fun x hx => ?_⟩
  exact h.named x ((h.sound.indexed.mem_list_erase deleted.rows).mp hx).1

end Catalog.Regular

/-! ## What operations make of a catalogue -/

section Operations

variable {setup : Setup} {s : State}

/-- What is asked for when a run is asked for by hand. -/
def Request.ofTrigger : Request → Bool
  | .getRow _ | .enqueueRun .. | .emit _ => true
  | _ => false

theorem Request.leavesDefinitions_of_ofTrigger {r : Request} (h : r.ofTrigger = true) :
    r.leavesDefinitions = true := by
  cases r <;> simp_all [ofTrigger, leavesDefinitions]

theorem Request.addsNoJob_of_ofTrigger {r : Request} (h : r.ofTrigger = true) :
    r.addsNoJob = true := by
  cases r <;> simp_all [ofTrigger, addsNoJob]

theorem Request.leavesData_of_ofTrigger {r : Request} (h : r.ofTrigger = true) :
    r.leavesData = true := by
  cases r <;> simp_all [ofTrigger, leavesData, leavesCatalog]

theorem trigger_asks {P : Request → Prop} (made : ∀ r : Request, r.ofTrigger = true → P r)
    (id : RuleId) : (trigger setup id).Asks P := by
  refine Action.asks_bind (Action.asks_call (made _ rfl)) fun row => ?_
  split
  · exact Action.asks_throw _
  · split
    · exact Action.asks_throw _
    · refine Action.asks_bind (Action.asks_call (made _ rfl)) fun sequence => ?_
      exact Action.asks_bind (Action.asks_call (made _ rfl)) fun _ => Action.asks_pure _

/-- What the requests of a run by hand preserve, all of it preserves. -/
theorem runByHand_keeps (inv : State → Prop)
    (step : ∀ r s, r.leavesDefinitions = true → r.addsNoJob = true → inv s → inv (s.perform r).2)
    (h : inv s) (id : RuleId) : inv (s.runByHand setup id) := by
  have runs : ∀ (runs : List ManualRun) (s' : State), inv s' →
      inv (runs.foldl (fun s run => ((manualRun setup run).run s).2) s') := by
    intro runs
    induction runs with
    | nil => exact fun _ h => h
    | cons run rest ih =>
      exact fun s' h => ih _ ((manualRun_asks run).keeps inv (fun r s task => step r s
        (Request.leavesDefinitions_of_ofTask task) (Request.addsNoJob_of_ofTask task)) h)
  have asks : (trigger setup id).Asks fun r => r.ofTrigger = true :=
    trigger_asks (fun _ made => made) id
  exact runs _ _ (asks.outcome.keeps inv (fun r s made => step r s
    (Request.leavesDefinitions_of_ofTrigger made) (Request.addsNoJob_of_ofTrigger made)) h)

/-- What every request preserves, every operation preserves. -/
theorem Operation.apply_keeps (inv : State → Prop) (step : ∀ r s, inv s → inv (s.perform r).2)
    (operation : Operation) (h : inv s) : inv (operation.apply setup s) := by
  have programs : ∀ {α : Type} (p : Program α), inv (p.run s).2 := fun p =>
    (Program.asks_any p).keeps inv (fun r s _ => step r s) h
  cases operation with
  | create draft => exact programs _
  | update id patch => exact programs _
  | delete id => exact programs _
  | pass => exact programs _
  | runByHand id => exact runByHand_keeps inv (fun r s _ _ => step r s) h id

theorem runByHand_keepsTo (id : RuleId) (s : State) :
    s.catalog.KeepsTo (s.runByHand setup id).catalog :=
  runByHand_keeps (fun s' => s.catalog.KeepsTo s'.catalog)
    (fun _ s' kept _ hs => hs.trans (s'.perform_definitions kept)) (.refl _) id

/-- What an operation can make of a catalogue: a row is added, replaced or removed, or all
definitions stay. After a failed change a row can be back with another version. -/
inductive Catalog.Step (setup : Setup) (c c' : Catalog) : Prop
  | kept (keeps : c.KeepsTo c')
  | created {d : RuleDraft} {now : Instant} {e : Entry} (created : Created setup d c now e c')
  | updated {id : RuleId} {patch : RulePatch} {now : Instant} {stored : Entry}
      (updated : Updated setup id patch c now stored c')
  | restored {id : RuleId} {current restored : Entry} {version : Nat}
      (found : c.get? id = some current) (same : restored = { current with version })
      (valid : restored.validate = .ok ())
      (rows : c'.rows = Assoc.put restored.id restored c.rows)
  | deleted {id : RuleId} {removed : Entry} (deleted : Deleted id c removed c')

/-- An operation takes one step, whether it succeeds or fails. -/
theorem Operation.apply_step (operation : Operation) (s : State) :
    s.catalog.Step setup (operation.apply setup s).catalog := by
  cases operation with
  | create draft =>
    have steps : (createRule setup draft).Yields s (fun _ s' => s.catalog.Step setup s'.catalog)
        fun _ s' => s.catalog.Step setup s'.catalog := by
      refine (createRule_yields setup draft s).mono (fun _ _ created => .created created) ?_
      rintro _ s' (hr | ⟨e, created⟩)
      · exact .kept (.of_rows_eq hr)
      · exact .created created
    rw [Operation.apply]
    exact steps.state
  | update id patch =>
    have steps : (updateRule setup id patch).Yields s (fun _ s' => s.catalog.Step setup s'.catalog)
        fun _ s' => s.catalog.Step setup s'.catalog := by
      refine (updateRule_yields setup id patch s).mono
        (fun _ _ ⟨_, _, updated⟩ => .updated updated) ?_
      rintro _ s' (hr | ⟨stored, now, -, updated⟩ |
        ⟨current, restored, version, found, same, valid, hr⟩)
      · exact .kept (.of_rows_eq hr)
      · exact .updated updated
      · exact .restored found same valid hr
    rw [Operation.apply]
    exact steps.state
  | delete id =>
    have steps : (deleteRule setup id).Yields s (fun _ s' => s.catalog.Step setup s'.catalog)
        fun _ s' => s.catalog.Step setup s'.catalog := by
      refine (deleteRule_yields setup id s).mono ?_ ?_
      · rintro _ s' ⟨removed, deleted⟩
        exact .deleted deleted
      · intro _ s' same
        exact .kept (.of_rows_eq (congrArg Catalog.rows same))
    rw [Operation.apply]
    exact steps.state
  | pass =>
    rw [Operation.apply]
    exact .kept (runPass_asks.run_definitions s)
  | runByHand id =>
    rw [Operation.apply]
    exact .kept (runByHand_keepsTo id s)

/-- An operation keeps a catalogue regular, whether it succeeds or fails. -/
theorem Operation.apply_regular (operation : Operation) (h : s.catalog.Regular setup.naming) :
    (operation.apply setup s).catalog.Regular setup.naming := by
  cases operation.apply_step s with
  | kept keeps => exact h.of_sameDefinitions keeps
  | created created => exact h.of_created created
  | updated updated => exact h.of_updated updated
  | restored found same valid rows => exact h.of_restored found same valid rows
  | deleted deleted => exact h.of_deleted deleted

/-- Every catalogue that comes up is regular, whatever else changes between operations. -/
theorem Reachable.regular {Outside : State → State → Prop}
    (catalog_kept : ∀ s s', Outside s s' → s'.catalog = s.catalog)
    (h : Reachable setup Outside s) : s.catalog.Regular setup.naming := by
  induction h with
  | start clock engine => exact .empty
  | apply operation _ ih => exact operation.apply_regular ih
  | outside _ change ih =>
    rw [catalog_kept _ _ change]
    exact ih

end Operations

/-! ## What soundness means for the graph -/

/-- The lineages of a sound catalogue have no gaps. -/
theorem Catalog.Sound.lineage_complete {c : Catalog} (h : c.Sound) {root : RuleId}
    {lineage : Lineage} (found : Lineage.of c.list root = .ok lineage) :
    ∀ n ∈ lineage.nodes, n.kind ≠ .missing := by
  unfold Lineage.of at found
  split at found
  · next listed =>
    obtain rfl := Except.ok.inj found
    intro n hn
    obtain ⟨id, hid, rfl⟩ := List.mem_map.mp hn
    rw [mem_contributors h.indexed.nodup_ids] at hid
    -- Along dependencies every step leads to a row.
    have there : ∃ e ∈ c.list, e.id = id := by
      induction hid with
      | refl => simpa using listed
      | tail _ step _ =>
        obtain ⟨e, he, -, hp⟩ := step
        exact h.exists_parent he hp
    obtain ⟨e, he, rfl⟩ := there
    rw [Ne, Lineage.node_kind_eq_missing, lookup?_of_mem h.indexed.nodup_ids he]
    exact Option.some_ne_none e
  · cases found

/-- Every catalogue that comes up through operations is sound: dependencies have rows, nothing
depends on itself, so that all rules have a place in the order and no lineage has a gap, rows are
valid, names are trimmed, and tables are named after their rules. -/
theorem reachable_sound {setup : Setup} {Outside : State → State → Prop} {s : State}
    (catalog_kept : ∀ s s', Outside s s' → s'.catalog = s.catalog)
    (h : Reachable setup Outside s) :
    (∀ e ∈ s.catalog.list, ∀ p ∈ e.parents, ∃ e' ∈ s.catalog.list, e'.id = p) ∧
      Acyclic s.catalog.list ∧
      (executionOrder s.catalog.list).cyclic = [] ∧
      (∀ root lineage, Lineage.of s.catalog.list root = .ok lineage →
        ∀ n ∈ lineage.nodes, n.kind ≠ .missing) ∧
      (∀ e ∈ s.catalog.list, e.validate = .ok ()) ∧
      ∀ e ∈ s.catalog.list, Text.trim e.rule.name = e.rule.name ∧
        e.segment.table = setup.naming.tablePrefix ++ e.id.text := by
  obtain ⟨sound, named⟩ := h.regular catalog_kept
  refine ⟨fun e he p hp => sound.exists_parent he hp, sound.acyclic,
    executionOrder_cyclic sound.acyclic, fun root lineage found => sound.lineage_complete found,
    sound.valid, fun e he => ?_⟩
  exact ⟨(named e he).trimmed, (named e he).table⟩

/-- The state after two rules, where the second one makes use of the first. -/
private def reusing : State :=
  Operation.apply {} (Operation.apply {} (({} : Setup).start (.still ⟨0, 0⟩) {})
    (.create { name := " cards ", conditions := [.of "transaction_type" "=" (.text "CARD")] }))
    (.create { name := "cards in tier one", conditions :=
      [.of "transaction_type" "=" (.text "CARD"), .of "city_tier" "=" (.int 1)] })

theorem reachable_sound_reusing :
    reusing.catalog.list.map Entry.parents = [[], [RuleId.ofNat 1]] ∧
      Acyclic reusing.catalog.list ∧
      ∀ e ∈ reusing.catalog.list, Text.trim e.rule.name = e.rule.name ∧
        e.segment.table = ({} : Setup).naming.tablePrefix ++ e.id.text := by
  have reachable : Reachable {} (fun _ _ => False) reusing := .apply _ (.apply _ (.start _ _))
  have sound := reachable_sound (fun _ _ never => never.elim) reachable
  exact ⟨by decide +kernel, sound.2.1, sound.2.2.2.2.2⟩

end Cohort
