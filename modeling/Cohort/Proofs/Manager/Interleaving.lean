import Cohort.Proofs.Catalog.Consistency
import Cohort.Proofs.Manager.Mutations
import Cohort.Proofs.Run.Definitions

/-!
# Changes made in turns

Any number of users can change rules at once. Each change reads the catalogue, plans, and then
writes or removes one row; between these requests other changes make theirs. The catalogue sees
to it that rows are well-formed and that nobody overwrites a row unseen, but it looks at one row
at a time: the rules that a row was planned with can be gone or can have changed before it is
written, and a rule can get dependents between the check for them and its removal. This module
says at which requests that does harm, and that it does harm at no others.

## Main definitions

* `Clients` — changes in progress on one state, and `Clients.run`, which gives them turns
* `Catalog.Intact` — dependencies have rows and nothing depends on itself
* `State.CommitsSafely` — what a request that writes or removes a row would have to check again

## Main results

* `State.perform_intact_iff` — a request keeps a catalogue intact just if it commits safely
* `interleaved_intact_iff` — all catalogues are intact just if all requests commit safely
* `interleaved_not_intact` — dependencies can go missing, and cycles can come about
-/

namespace Cohort

variable {s : State} {c c' : Catalog} {e : Entry} {id : RuleId}

/-! ## Changes in progress -/

/-- Changes in progress, with what is left of each, on a state that they share. -/
structure Clients where
  state : State
  calls : List (Program (Option Failure))

namespace Clients

/-- Changes that are about to begin on an empty catalogue. -/
def start (setup : Setup) (clock : Clock) (engine : Engine) (changes : List Mutation) : Clients :=
  ⟨setup.start clock engine, changes.map (Mutation.program setup)⟩

/-- The request that a change makes when it is its turn. There is none if it is over or has to
wait. -/
def request? (k : Clients) (i : Nat) : Option Request :=
  match k.calls[i]? with
  | some (.ask r _) => if k.state.blocks r then none else some r
  | _ => none

/-- It is the turn of a change, which makes one request. -/
def step (k : Clients) (i : Nat) : Clients :=
  match k.calls[i]? with
  | some (.ask r rest) =>
    if k.state.blocks r then k
    else ⟨(k.state.perform r).2, k.calls.set i (rest (k.state.perform r).1)⟩
  | _ => k

/-- The changes get their turns in an order. -/
def run (k : Clients) (turns : List Nat) : Clients := turns.foldl step k

/-- A turn carries out the request that is made in it. -/
theorem state_step (k : Clients) (i : Nat) :
    (k.step i).state = (k.request? i).elim k.state fun r => (k.state.perform r).2 := by
  unfold step request?
  split
  · split <;> rfl
  · rfl

end Clients

/-! ## Intact catalogues -/

/-- Dependencies have rows, and nothing depends on itself. -/
structure Catalog.Intact (c : Catalog) : Prop where
  present : ∀ e ∈ c.list, ∀ p ∈ e.parents, ∃ e' ∈ c.list, e'.id = p
  acyclic : Acyclic c.list

theorem Catalog.Consistent.sound (h : c.Consistent) (intact : c.Intact) : c.Sound where
  indexed := h.indexed
  valid := h.valid
  present e he p hp := h.indexed.isSome_get?.mpr (intact.present e he p hp)
  acyclic := intact.acyclic

theorem Catalog.Sound.intact (h : c.Sound) : c.Intact where
  present _ he _ hp := h.exists_parent he hp
  acyclic := h.acyclic

/-! ## What a commit would have to check again -/

/-- If the request writes a row, the rules that the row depends on have rows, and none of them
depends on the rule by now. If it removes a row, nothing depends on the rule by now. -/
def State.CommitsSafely (s : State) : Request → Prop
  | .insertRow e => ∀ stored, (s.perform (.insertRow e)).1 = .ok stored →
      ∀ p ∈ e.parents, (s.catalog.get? p).isSome
  | .replaceRow e expected => ∀ stored, (s.perform (.replaceRow e expected)).1 = .ok stored →
      ∀ p ∈ e.parents, (s.catalog.get? p).isSome ∧
        ¬ Relation.ReflTransGen (DependsOn s.catalog.list) p e.id
  | .removeRow id => ∀ removed, (s.perform (.removeRow id)).1 = .ok removed →
      ∀ a, ¬ DependsOn s.catalog.list a id
  | _ => True

/-- Where a row is put in place, all other rules depend on the same ones as before. -/
theorem Catalog.dependsOn_of_put (indexed : c.Indexed) (hr : c'.rows = Assoc.put e.id e c.rows)
    {a b : RuleId} (ha : a ≠ e.id) : DependsOn c'.list a b ↔ DependsOn c.list a b := by
  constructor
  · rintro ⟨x, hx, rfl, hb⟩
    rcases (indexed.mem_list_put hr).mp hx with rfl | ⟨hx, -⟩
    · exact absurd rfl ha
    · exact ⟨x, hx, rfl, hb⟩
  · rintro ⟨x, hx, rfl, hb⟩
    exact ⟨x, (indexed.mem_list_put hr).mpr (.inr ⟨hx, ha⟩), rfl, hb⟩

/-- A row that was put in place has its parents among the rows from before just if all rows have
theirs. -/
theorem Catalog.present_of_put (indexed : c.Indexed) (hr : c'.rows = Assoc.put e.id e c.rows)
    (valid : e.validate = .ok ()) (intact : c'.Intact) {p : RuleId} (hp : p ∈ e.parents) :
    (c.get? p).isSome := by
  obtain ⟨x, hx, rfl⟩ := intact.present e ((indexed.mem_list_put hr).mpr (.inl rfl)) p hp
  rcases (indexed.mem_list_put hr).mp hx with rfl | ⟨hx, -⟩
  · exact absurd hp (Entry.not_mem_parents_self valid)
  · exact indexed.isSome_get?.mpr ⟨x, hx, rfl⟩

theorem Catalog.Sound.insert_intact_iff (h : c.Sound) (hr : c'.rows = Assoc.put e.id e c.rows)
    (valid : e.validate = .ok ()) (fresh : c.get? e.id = none) :
    c'.Intact ↔ ∀ p ∈ e.parents, (c.get? p).isSome :=
  ⟨fun intact _ hp => present_of_put h.indexed hr valid intact hp, fun present =>
    (h.put hr valid present (.inr fun a _ => h.not_dependsOn_of_get?_eq_none fresh a)).intact⟩

theorem Catalog.Sound.replace_intact_iff (h : c.Sound) (hr : c'.rows = Assoc.put e.id e c.rows)
    (valid : e.validate = .ok ()) {seen : Entry} (found : c.get? e.id = some seen) :
    c'.Intact ↔ ∀ p ∈ e.parents, (c.get? p).isSome ∧
      ¬ Relation.ReflTransGen (DependsOn c.list) p e.id := by
  have stored : e ∈ c'.list := (h.indexed.mem_list_put hr).mpr (.inl rfl)
  constructor
  · intro intact p hp
    refine ⟨present_of_put h.indexed hr valid intact hp, fun back => ?_⟩
    -- What led to the rule before does so now, and the new dependency closes a cycle.
    have back' := reaches_of_agree_off e.id
      (fun a b ha => (dependsOn_of_put h.indexed hr ha).mpr) back
    exact intact.acyclic e.id (.head' ⟨e, stored, rfl, hp⟩ back')
  · intro safe
    refine ⟨fun x hx p hp => ?_, ?_⟩
    · have there : (c.get? p).isSome := by
        rcases (h.indexed.mem_list_put hr).mp hx with rfl | ⟨hx, -⟩
        · exact (safe p hp).1
        · exact h.present x hx p hp
      refine (h.indexed.put hr).isSome_get?.mp ?_
      rw [get?_of_put hr]
      split
      · rfl
      · exact there
    · refine h.acyclic.of_not_reaches e.id
        (fun a b ha => (dependsOn_of_put h.indexed hr ha).mp) ?_
      rintro p ⟨x, hx, hid, hp⟩ back
      obtain rfl := (h.indexed.put hr).eq_of_id_eq hx stored hid
      exact (safe p hp).2 (reaches_of_agree_off x.id
        (fun a b ha => (dependsOn_of_put h.indexed hr ha).mp) back)

theorem Catalog.Sound.erase_intact_iff (h : c.Sound) (hr : c'.rows = Assoc.erase id c.rows) :
    c'.Intact ↔ ∀ a, ¬ DependsOn c.list a id := by
  constructor
  · rintro intact a ⟨x, hx, rfl, hp⟩
    have other : x.id ≠ id := by
      rintro rfl
      exact Entry.not_mem_parents_self (h.valid x hx) hp
    obtain ⟨y, hy, hid⟩ := intact.present x ((h.indexed.mem_list_erase hr).mpr ⟨hx, other⟩) id hp
    exact ((h.indexed.mem_list_erase hr).mp hy).2 hid
  · exact fun free => (h.erase hr fun a _ => free a).intact

/-- A request keeps a catalogue intact just if it commits safely. -/
theorem State.perform_intact_iff (consistent : s.catalog.Consistent) (intact : s.catalog.Intact)
    (r : Request) : (s.perform r).2.catalog.Intact ↔ s.CommitsSafely r := by
  have sound := consistent.sound intact
  by_cases kept : r.leavesDefinitions = true
  -- No row comes or goes, and dependencies are part of a definition.
  · have keeps := s.perform_definitions kept
    have after := (sound.of_sameDefinitions (keeps.1 sound.indexed) (keeps.2 sound.indexed)).intact
    refine iff_of_true after ?_
    cases r <;> trivial
  · cases r <;> simp [Request.leavesDefinitions] at kept
    case allocateId =>
      have after : s.catalog.allocate.2.Sound := sound.of_rows_eq rfl
      exact iff_of_true after.intact trivial
    case insertRow e =>
      simp only [CommitsSafely, perform]
      rcases s.catalog.insert_cases e
        with ⟨failure, unchanged⟩ | ⟨c', inserted, valid, fresh, -, hrows, -⟩
      · rw [unchanged]
        exact iff_of_true intact fun _ never => by cases never
      · rw [inserted]
        refine (sound.insert_intact_iff (e := { e with version := 1 }) hrows valid fresh).trans ?_
        exact ⟨fun safe _ _ => safe, fun safe => safe _ rfl⟩
    case replaceRow e expected =>
      simp only [CommitsSafely]
      rcases replaceRow_cases s e expected
        with ⟨failure, failed, unchanged⟩ |
          ⟨seen, stored, replaced, rfl, valid, found, -, hrows⟩
      · rw [unchanged, failed]
        exact iff_of_true intact fun _ never => by cases never
      · rw [replaced, sound.replace_intact_iff hrows valid found]
        exact ⟨fun safe _ _ => safe, fun safe => safe _ rfl⟩
    case removeRow id =>
      simp only [CommitsSafely]
      rcases removeRow_cases s id with ⟨failure, failed, unchanged⟩ | ⟨removed, done, hrows⟩
      · rw [unchanged, failed]
        exact iff_of_true intact fun _ never => by cases never
      · rw [done, sound.erase_intact_iff hrows]
        exact ⟨fun safe _ _ => safe, fun safe => safe _ rfl⟩

/-! ## Changes that get their turns in any order -/

namespace Clients

/-- The request that a change makes when it is its turn commits safely. -/
def TurnIsSafe (k : Clients) (i : Nat) : Prop :=
  ∀ r ∈ k.request? i, k.state.CommitsSafely r

variable {k : Clients}

theorem step_consistent (h : k.state.catalog.Consistent) (i : Nat) :
    (k.step i).state.catalog.Consistent := by
  rw [state_step]
  cases k.request? i with
  | none => exact h
  | some r => exact k.state.perform_consistent h r

theorem step_intact_iff (consistent : k.state.catalog.Consistent)
    (intact : k.state.catalog.Intact) (i : Nat) :
    (k.step i).state.catalog.Intact ↔ k.TurnIsSafe i := by
  rw [state_step, TurnIsSafe]
  cases k.request? i with
  | none => exact iff_of_true intact fun _ never => by cases never
  | some r =>
    refine (State.perform_intact_iff consistent intact r).trans ?_
    exact ⟨fun safe _ same => Option.some.inj same ▸ safe, fun safe => safe r rfl⟩

/-- From an intact catalogue on all are intact just if all turns are safe. -/
theorem run_intact_iff (consistent : k.state.catalog.Consistent)
    (intact : k.state.catalog.Intact) (turns : List Nat) :
    (∀ made, made <+: turns → (k.run made).state.catalog.Intact) ↔
      ∀ made i, made ++ [i] <+: turns → (k.run made).TurnIsSafe i := by
  induction turns generalizing k with
  | nil =>
    refine iff_of_true (fun made none_made => ?_) fun made i some_made => ?_
    · rw [List.prefix_nil.mp none_made]
      exact intact
    · simp at some_made
  | cons first rest ih =>
    constructor
    · intro all_intact
      have next_intact := all_intact [first] (by simp)
      have later := (ih (step_consistent consistent first) next_intact).mp fun made later_made =>
        all_intact (first :: made) ((List.prefix_cons_inj _).mpr later_made)
      intro made i some_made
      cases made with
      | nil =>
        obtain rfl : i = first := by simpa using some_made
        exact (step_intact_iff consistent intact i).mp next_intact
      | cons j made =>
        obtain ⟨rfl, later_made⟩ := List.cons_prefix_cons.mp some_made
        exact later made i later_made
    · intro all_safe
      have next_intact :=
        (step_intact_iff consistent intact first).mpr (all_safe [] first (by simp))
      have later := (ih (step_consistent consistent first) next_intact).mpr
        fun made i later_made =>
          all_safe (first :: made) i ((List.prefix_cons_inj _).mpr later_made)
      intro made some_made
      cases made with
      | nil => exact intact
      | cons j made =>
        obtain ⟨rfl, later_made⟩ := List.cons_prefix_cons.mp some_made
        exact later made later_made

end Clients

/-- Whichever changes are made, and in whichever order they get their turns, every catalogue that
comes up has rows for all dependencies and no cycles just if every turn is safe: where a row is
written, the rules that it depends on still have rows and do not depend on it by now, and where a
row is removed, nothing depends on it by now. -/
theorem interleaved_intact_iff (setup : Setup) (clock : Clock) (engine : Engine)
    (changes : List Mutation) (turns : List Nat) :
    (∀ made, made <+: turns →
        ((Clients.start setup clock engine changes).run made).state.catalog.Intact) ↔
      ∀ made i, made ++ [i] <+: turns →
        ((Clients.start setup clock engine changes).run made).TurnIsSafe i :=
  Clients.run_intact_iff .empty Catalog.sound_empty.intact turns

/-! ## Turns that are not safe -/

private def cardsDraft : RuleDraft :=
  { name := "cards", conditions := [.of "transaction_type" "=" (.text "CARD")] }

private def tierDraft : RuleDraft :=
  { name := "tier one", conditions := [.of "city_tier" "=" (.int 1)] }

/-- A rule is combined into another one while it is deleted: the deletion has looked for dependents
before the other rule is there. -/
private def combinedWhileDeleted : Clients :=
  (Clients.start {} (.still ⟨0, 0⟩) {}
    [.create cardsDraft,
      .create { name := "all", composition := some ⟨[RuleId.ofNat 1], .union⟩ },
      .delete (RuleId.ofNat 1)]).run
    (List.replicate 7 0 ++ [2] ++ List.replicate 7 1 ++ List.replicate 6 2)

/-- Two rules are narrowed at once, so that each makes use of what the other was when both were
planned. -/
private def narrowedAtOnce : Clients :=
  (Clients.start {} (.still ⟨0, 0⟩) {}
    [.create cardsDraft, .create tierDraft,
      .update (RuleId.ofNat 1)
        { conditions := some [.of "city_tier" "=" (.int 1), .of "amount" ">" (.int 5)] },
      .update (RuleId.ofNat 2)
        { conditions :=
            some [.of "transaction_type" "=" (.text "CARD"), .of "amount" ">" (.int 5)] }]).run
    (List.replicate 7 0 ++ List.replicate 7 1 ++ List.replicate 4 2 ++ List.replicate 4 3 ++
      List.replicate 3 2 ++ List.replicate 3 3)

theorem dependsOn_iff_mem_map {entries : List Entry} {a b : RuleId} :
    DependsOn entries a b ↔ ∃ ps, (a, ps) ∈ entries.map (fun e => (e.id, e.parents)) ∧ b ∈ ps := by
  simp only [DependsOn, List.mem_map, Prod.mk.injEq]
  constructor
  · rintro ⟨e, he, rfl, hb⟩
    exact ⟨e.parents, ⟨e, he, rfl, rfl⟩, hb⟩
  · rintro ⟨_, ⟨e, he, rfl, rfl⟩, hb⟩
    exact ⟨e, he, rfl, hb⟩

/-- Where changes take turns, a dependency can lose its row, and two rules can come to depend on
each other. All of these changes succeed. -/
theorem interleaved_not_intact :
    (DependsOn combinedWhileDeleted.state.catalog.list (RuleId.ofNat 2) (RuleId.ofNat 1) ∧
      combinedWhileDeleted.state.catalog.get? (RuleId.ofNat 1) = none ∧
      ¬ combinedWhileDeleted.state.catalog.Intact) ∧
    ¬ Acyclic narrowedAtOnce.state.catalog.list ∧
      ¬ narrowedAtOnce.state.catalog.Intact := by
  have combined_rows :
      combinedWhileDeleted.state.catalog.list.map (fun e => (e.id, e.parents)) =
        [(RuleId.ofNat 2, [RuleId.ofNat 1])] := by decide +kernel
  have narrowed_rows : narrowedAtOnce.state.catalog.list.map (fun e => (e.id, e.parents)) =
      [(RuleId.ofNat 1, [RuleId.ofNat 2]), (RuleId.ofNat 2, [RuleId.ofNat 1])] := by
    decide +kernel
  have combined : DependsOn combinedWhileDeleted.state.catalog.list (RuleId.ofNat 2)
      (RuleId.ofNat 1) :=
    dependsOn_iff_mem_map.mpr ⟨_, by rw [combined_rows]; exact List.mem_singleton_self _,
      List.mem_singleton_self _⟩
  have cyclic : ¬ Acyclic narrowedAtOnce.state.catalog.list := by
    intro acyclic
    have there : DependsOn narrowedAtOnce.state.catalog.list (RuleId.ofNat 1) (RuleId.ofNat 2) :=
      dependsOn_iff_mem_map.mpr ⟨[RuleId.ofNat 2], by rw [narrowed_rows]; simp, by simp⟩
    have back : DependsOn narrowedAtOnce.state.catalog.list (RuleId.ofNat 2) (RuleId.ofNat 1) :=
      dependsOn_iff_mem_map.mpr ⟨[RuleId.ofNat 1], by rw [narrowed_rows]; simp, by simp⟩
    exact acyclic _ (.tail (.single there) back)
  refine ⟨⟨combined, by decide +kernel, fun intact => ?_⟩, cyclic,
    fun intact => cyclic intact.acyclic⟩
  obtain ⟨e, he, -, hp⟩ := combined
  obtain ⟨e', he', hid⟩ := intact.present e he _ hp
  have listed : e'.id ∈ combinedWhileDeleted.state.catalog.list.map Entry.id :=
    List.mem_map_of_mem he'
  have ids : combinedWhileDeleted.state.catalog.list.map Entry.id = [RuleId.ofNat 2] := by
    decide +kernel
  rw [ids, hid] at listed
  exact absurd listed (by decide)

end Cohort
