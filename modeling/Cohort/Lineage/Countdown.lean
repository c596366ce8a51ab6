import Cohort.Assoc
import Cohort.Lineage

/-!
# Counting down dependencies

To put rules in order it is counted how many dependencies of each rule are open, which
means that they lead to a rule without a place. A rule whose count is down to zero is
ready. The lowest of the ready rules gets the next place, and this closes the
dependencies on it.

## Main definitions

* `Entry.links` — the dependencies among some entries
* `Countdown` — the counts, the ready rules and the places so far
* `Countdown.run?` — gives places until no rule is ready
* `Countdown.Available` — a rule may have the next place
* `Countdown.Valid` — the counts are those of the open dependencies

## Main results

* `Countdown.Valid.next` — the counts stay right when a rule gets its place
* `Countdown.Valid.exists_run?` — the run comes to its end, no count goes below zero, and every
  place goes to the lowest rule that is available
-/

namespace Cohort

/-- The dependencies among some entries. An entry depends once on each listed rule that it names;
several entries of one rule count apart. -/
def Entry.links (entries : List Entry) : List LineageEdge :=
  entries.flatMap fun e =>
    (RuleId.ascending (e.parents.filter fun p => entries.any fun x => x.id = p)).map
      fun p => ⟨p, e.id⟩

/-- The number of dependencies of a rule among some of them. -/
def countInto (id : RuleId) (links : List LineageEdge) : Nat := links.countP fun l => l.child = id

/-- How far the order has come. -/
structure Countdown where
  /-- The number of open dependencies of each rule. -/
  counts : List (RuleId × Nat)
  /-- The rules without open dependencies that wait for their place, in ascending order. -/
  ready : List RuleId
  placed : List RuleId
  deriving DecidableEq, Repr

namespace Countdown

/-- At the start all dependencies are open. -/
def start (ids : List RuleId) (links : List LineageEdge) : Countdown :=
  let counts := ids.map fun id => (id, countInto id links)
  ⟨counts, (counts.filter fun c => c.2 = 0).map Prod.fst, []⟩

/-- Closes a dependency of a rule. There is no result if it had none that was open. -/
def close? (c : Countdown) (id : RuleId) : Option Countdown :=
  match Assoc.get? id c.counts with
  | none => some c
  | some 0 => none
  | some (n + 1) =>
    some ⟨Assoc.put id n c.counts, if n = 0 then RuleId.insertAscending id c.ready else c.ready,
      c.placed⟩

/-- Closes the dependencies on a rule. -/
def release? (links : List LineageEdge) (id : RuleId) (c : Countdown) : Option Countdown :=
  ((links.filter fun l => l.parent = id).map LineageEdge.child).foldlM close? c

/-- Gives places, the lowest ready rule first, until no rule is ready. There is no result if this
takes more than the given number of places, or if a count would go below zero. -/
def run? (links : List LineageEdge) : Nat → Countdown → Option Countdown
  | n, c =>
    match c.ready with
    | [] => some c
    | id :: rest =>
      match n with
      | 0 => none
      | n + 1 => (release? links id ⟨c.counts, rest, c.placed ++ [id]⟩).bind (run? links n)

/-! ## What is counted -/

/-- The dependencies on rules without a place. -/
def opened (links : List LineageEdge) (placed : List RuleId) : List LineageEdge :=
  links.filter fun l => l.parent ∉ placed

/-- A rule without a place, where all that it depends on has one. -/
def Available (ids : List RuleId) (links : List LineageEdge) (placed : List RuleId) (id : RuleId) :
    Prop :=
  id ∈ ids ∧ id ∉ placed ∧ ∀ l ∈ links, l.child = id → l.parent ∈ placed

/-- While some dependencies are open: they are what is counted, and the ready rules are those that
have none of them and no place. -/
structure Valid (ids : List RuleId) (opened : List LineageEdge) (c : Countdown) : Prop where
  count : ∀ id ∈ ids, Assoc.get? id c.counts = some (countInto id opened)
  ready_iff : ∀ id, id ∈ c.ready ↔ id ∈ ids ∧ id ∉ c.placed ∧ countInto id opened = 0
  ascending : c.ready.Pairwise (· < ·)
  placed : ∀ id ∈ c.placed, id ∈ ids ∧ countInto id opened = 0

variable {ids placed : List RuleId} {links opened' : List LineageEdge} {c : Countdown} {id : RuleId}

theorem countInto_cons (l : LineageEdge) :
    countInto id (l :: links) = countInto id links + if l.child = id then 1 else 0 := by
  simp [countInto, List.countP_cons]

theorem countInto_eq_zero : countInto id links = 0 ↔ ∀ l ∈ links, l.child ≠ id := by
  simp [countInto, List.countP_eq_zero]

/-- A new place closes the dependencies on the rule that gets it, and no others. -/
theorem countInto_opened (h : id ∉ placed) (x : RuleId) :
    countInto x (opened links placed) =
      countInto x ((links.filter fun l => l.parent = id) ++ opened links (placed ++ [id])) := by
  unfold countInto opened
  rw [List.countP_append, List.countP_filter, List.countP_filter, List.countP_filter]
  induction links with
  | nil => rfl
  | cons l rest ih =>
    simp only [List.countP_cons, ih]
    by_cases hp : l.parent = id
    · simp [hp, h]
      omega
    · simp [hp]
      omega

/-- Only the number of open dependencies of each rule matters. -/
theorem Valid.congr (h : Valid ids links c)
    (same : ∀ id, countInto id links = countInto id opened') : Valid ids opened' c where
  count id hid := by rw [h.count id hid, same]
  ready_iff id := by rw [h.ready_iff id, same]
  ascending := h.ascending
  placed id hid := by rw [← same]; exact h.placed id hid

theorem valid_start (ascending : ids.Pairwise (· < ·)) : Valid ids links (start ids links) where
  count id hid := Assoc.get?_map_self hid
  ready_iff id := by
    simp only [start, List.mem_map, List.mem_filter, decide_eq_true_eq, List.not_mem_nil,
      not_false_eq_true, true_and]
    constructor
    · rintro ⟨_, ⟨⟨x, hx, rfl⟩, none_open⟩, rfl⟩
      exact ⟨hx, none_open⟩
    · rintro ⟨hid, none_open⟩
      exact ⟨_, ⟨⟨id, hid, rfl⟩, none_open⟩, rfl⟩
  ascending := by
    simp only [start, List.filter_map, List.map_map]
    exact List.pairwise_map.mpr (ascending.filter _)
  placed id hid := by cases hid

theorem close?_of_count {n : Nat} (h : Assoc.get? id c.counts = some (n + 1)) :
    c.close? id = some ⟨Assoc.put id n c.counts,
      if n = 0 then RuleId.insertAscending id c.ready else c.ready, c.placed⟩ := by
  simp only [close?, h]

/-- A rule that has an open dependency has a count to lower. -/
theorem Valid.close? {l : LineageEdge} (h : Valid ids (l :: links) c) (listed : l.child ∈ ids) :
    ∃ c', c.close? l.child = some c' ∧ Valid ids links c' ∧ c'.placed = c.placed := by
  have counted : Assoc.get? l.child c.counts = some (countInto l.child links + 1) := by
    rw [h.count _ listed, countInto_cons, if_pos rfl]
  have without_place : l.child ∉ c.placed := fun placed => by
    have := (h.placed _ placed).2
    rw [countInto_cons, if_pos rfl] at this
    cases this
  refine ⟨_, close?_of_count counted,
    ⟨fun id hid => ?_, fun id => ?_, ?_, fun id hid => ?_⟩, rfl⟩
  · rw [Assoc.get?_put]
    split
    · next same => rw [same]
    · next other => rw [h.count id hid, countInto_cons, if_neg other, Nat.add_zero]
  · -- Only the rule whose dependency is closed can become ready, and does so if it was the last.
    have before := h.ready_iff id
    rw [countInto_cons] at before
    by_cases same : l.child = id
    · subst same
      split
      · next last => simp [RuleId.mem_insertAscending, listed, without_place, last]
      · next more => simp [before, more]
    · rw [if_neg same, Nat.add_zero] at before
      split
      · rw [RuleId.mem_insertAscending, ← before]
        exact or_iff_right (Ne.symm same)
      · exact before
  · dsimp only
    split
    · exact RuleId.ascending_insertAscending h.ascending
    · exact h.ascending
  · obtain ⟨hid, none_open⟩ := h.placed id hid
    rw [countInto_cons] at none_open
    exact ⟨hid, (Nat.add_eq_zero_iff.mp none_open).1⟩

/-- One after the other, the first of the open dependencies are closed. -/
theorem Valid.exists_foldlM_close? {ls : List LineageEdge} (h : Valid ids (ls ++ opened') c)
    (listed : ∀ l ∈ ls, l.child ∈ ids) :
    ∃ c', (ls.map LineageEdge.child).foldlM Countdown.close? c = some c' ∧
      Valid ids opened' c' ∧ c'.placed = c.placed := by
  induction ls generalizing c with
  | nil => exact ⟨c, rfl, h, rfl⟩
  | cons l ls ih =>
    obtain ⟨listed_l, listed_rest⟩ := List.forall_mem_cons.mp listed
    obtain ⟨c₁, closed, valid, placed⟩ := h.close? listed_l
    obtain ⟨c₂, rest_closed, valid_rest, placed_rest⟩ := ih valid listed_rest
    refine ⟨c₂, ?_, valid_rest, placed_rest.trans placed⟩
    simp [closed, rest_closed]

/-- The first of the ready rules is the lowest of them. -/
theorem Valid.first_le {rest : List RuleId} {x : RuleId} (h : Valid ids opened' c)
    (first : c.ready = id :: rest) (ready : x ∈ c.ready) : id ≤ x := by
  have ascending := h.ascending
  rw [first] at ready ascending
  rcases List.mem_cons.mp ready with rfl | later
  · exact Nat.le_refl _
  · exact Nat.le_of_lt ((List.pairwise_cons.mp ascending).1 x later)

/-- The first ready rule gets its place. -/
theorem Valid.next {rest : List RuleId} (h : Valid ids (opened links c.placed) c)
    (listed : ∀ l ∈ links, l.child ∈ ids) (first : c.ready = id :: rest) :
    ∃ c', Countdown.release? links id ⟨c.counts, rest, c.placed ++ [id]⟩ = some c' ∧
      Valid ids (opened links c'.placed) c' ∧ c'.placed = c.placed ++ [id] := by
  obtain ⟨hid, without_place, none_open⟩ := (h.ready_iff id).mp (by simp [first])
  have ascending := h.ascending
  rw [first, List.pairwise_cons] at ascending
  have taken : Valid ids (opened links c.placed) ⟨c.counts, rest, c.placed ++ [id]⟩ := {
    count := h.count
    ready_iff := fun x => by
      have before := h.ready_iff x
      rw [first, List.mem_cons] at before
      by_cases same : x = id
      · subst same
        have : x ∉ rest := fun later => Nat.lt_irrefl _ (ascending.1 x later)
        simp [this]
      · simpa [same] using before
    ascending := ascending.2
    placed := fun x hx => by
      rcases List.mem_append.mp hx with hx | hx
      · exact h.placed x hx
      · rw [List.mem_singleton.mp hx]
        exact ⟨hid, none_open⟩ }
  -- What was open is now split into what this place closes and what stays open.
  obtain ⟨c', released, valid, placed⟩ :=
    (taken.congr (countInto_opened without_place)).exists_foldlM_close?
      fun l hl => listed l (List.mem_filter.mp hl).1
  exact ⟨c', released, by rwa [placed], placed⟩

/-! ## The run -/

theorem Valid.mem_ready (h : Valid ids (opened links c.placed) c) :
    id ∈ c.ready ↔ Available ids links c.placed id := by
  rw [h.ready_iff, Available, countInto_eq_zero]
  simp only [opened, List.mem_filter, decide_eq_true_eq, and_imp, and_congr_right_iff]
  intro _ _
  exact forall_congr' fun l => forall_congr' fun _ =>
    ⟨fun h child => Classical.not_not.mp fun without_place => h without_place child,
      fun h without_place child => without_place (h child)⟩

theorem run?_of_ready_nil (h : c.ready = []) (n : Nat) : run? links n c = some c := by
  unfold run?
  simp only [h]

theorem run?_of_ready_cons {rest : List RuleId} (h : c.ready = id :: rest) (n : Nat) :
    run? links (n + 1) c =
      (release? links id ⟨c.counts, rest, c.placed ++ [id]⟩).bind (run? links n) := by
  conv => lhs; unfold run?
  simp only [h]

/-- A new place leaves fewer rules without one. -/
private theorem length_without_place_lt (hid : id ∈ ids) (without_place : id ∉ placed) :
    (ids.filter fun x => x ∉ placed ++ [id]).length < (ids.filter fun x => x ∉ placed).length := by
  have fewer : (ids.filter fun x => x ∉ placed ++ [id]) =
      (ids.filter fun x => x ∉ placed).filter fun x => x ≠ id := by
    rw [List.filter_filter]
    exact List.filter_congr fun x _ => by simp [and_comm]
  rw [fewer]
  exact List.length_filter_lt_length_iff_exists.mpr
    ⟨id, List.mem_filter.mpr ⟨hid, decide_eq_true without_place⟩, by simp⟩

/-- With a place for every rule that has none, the run comes to its end. What holds of the places
at the start holds of all places in the end, if it goes on to hold whenever the lowest available
rule gets the next place. -/
theorem Valid.exists_run? (listed : ∀ l ∈ links, l.child ∈ ids) {P : List RuleId → Prop}
    (step : ∀ placed id, Available ids links placed id →
      (∀ x, Available ids links placed x → id ≤ x) → P placed → P (placed ++ [id])) :
    ∀ (n : Nat) (c : Countdown), Valid ids (opened links c.placed) c →
      (ids.filter fun id => id ∉ c.placed).length ≤ n → P c.placed →
      ∃ c', run? links n c = some c' ∧ Valid ids (opened links c'.placed) c' ∧ c'.ready = [] ∧
        P c'.placed := by
  intro n
  induction n with
  | zero =>
    intro c valid enough holds
    have none_ready : c.ready = [] := by
      refine List.eq_nil_iff_forall_not_mem.mpr fun id hid => ?_
      obtain ⟨listed_id, without_place, -⟩ := valid.mem_ready.mp hid
      exact Nat.not_lt_zero _
        (Nat.lt_of_lt_of_le (length_without_place_lt listed_id without_place) enough)
    exact ⟨c, run?_of_ready_nil none_ready 0, valid, none_ready, holds⟩
  | succ n ih =>
    intro c valid enough holds
    cases first : c.ready with
    | nil => exact ⟨c, run?_of_ready_nil first _, valid, first, holds⟩
    | cons id rest =>
      have available := valid.mem_ready.mp (first ▸ List.mem_cons_self : id ∈ c.ready)
      have lowest : ∀ x, Available ids links c.placed x → id ≤ x := fun x hx =>
        valid.first_le first (valid.mem_ready.mpr hx)
      obtain ⟨c', released, valid', placed'⟩ := valid.next listed first
      have fewer := length_without_place_lt available.1 available.2.1
      obtain ⟨c'', ran, rest_done⟩ := ih c' valid' (by rw [placed']; omega)
        (by rw [placed']; exact step _ _ available lowest holds)
      exact ⟨c'', by rw [run?_of_ready_cons first, released, Option.bind_some, ran], rest_done⟩

end Countdown

end Cohort
