import Cohort.Proofs.Catalog.Versions
import Cohort.Proofs.Manager.Creations
import Cohort.Proofs.Manager.Interleaving
import Cohort.Proofs.Program.Protocol

/-!
# No update is lost

A change of a rule reads the row, plans, and then writes a row that it has made of the one it has
read. Others can write the row meanwhile: another change can, and so can a run, which writes down
what it has done without looking at versions. The change is committed only in the version that it
has read. As every write counts the version up, nothing was written in between when it succeeds,
and what runs have written is in the new row.

## Main definitions

* `Amended` — what a patch makes of a row, whatever the plan is
* `Entry.records` — what runs write into a row
* `Protocol.overwriting` — a row is replaced only by one that was made of it
* `Clients.Learns` — a change reads a row or stores it

## Main results

* `updateRule_follows` — a change of a rule keeps to this
* `no_update_lost` — where a row is replaced, nothing was written to it since it was read
-/

namespace Cohort

open Cohort.Action

variable {σ : Type} {setup : Setup} {s : State} {id : RuleId} {r : Request}
  {current e next : Entry} {patch : RulePatch} {now : Instant} {seen : Option Entry}

/-! ## What a patch makes of a row -/

/-- What a patch makes of a row: where the conditions change, by some plan. -/
inductive Amended (current : Entry) (patch : RulePatch) (now : Instant) : Entry → Prop
  | plain {base : Entry} (applied : patch.applyPlain now current = .ok base) :
      Amended current patch now (base.touched now)
  | replanned {base : Entry} (applied : patch.applyPlain now current = .ok base) (p : Plan) :
      Amended current patch now (((base.withPlan p).dueAt now).touched now)

/-- What runs write into a row beside the time of the next run: the number of rows, when the table
was written and up to which time it is complete, and when the rule was last run. -/
def Entry.records (e : Entry) : Nat × Option Instant × Option Instant × Option Instant :=
  (e.segment.rowCount, e.segment.lastRefreshedAt, e.segment.dataAsOf, e.rule.lastRunAt)

theorem Amended.id_eq (h : Amended current patch now next) : next.id = current.id := by
  cases h with
  | plain applied =>
    obtain ⟨name, -, rfl⟩ := applyPlain_eq applied
    rfl
  | replanned applied p =>
    obtain ⟨name, -, rfl⟩ := applyPlain_eq applied
    rfl

theorem Amended.records_eq (h : Amended current patch now next) :
    next.records = current.records := by
  cases h with
  | plain applied =>
    obtain ⟨name, -, rfl⟩ := applyPlain_eq applied
    rfl
  | replanned applied p =>
    obtain ⟨name, -, rfl⟩ := applyPlain_eq applied
    rfl

/-- A patch is applied by reading the time and by planning without the rule. -/
theorem applyPatch_follows {P : Protocol σ} {x : σ} (current : Entry) (patch : RulePatch)
    (inv : σ → Prop) (h : inv x)
    (quiet : ∀ r x, r = .now ∨ r.ofPlanning [current.id] = true → inv x →
      P.Admits x r ∧ ∀ answer x', P.Leads x r answer x' → inv x') :
    (applyPatch setup current patch).Follows P x
      (fun patched x' => inv x' ∧ ∃ now, Amended current patch now patched.1) inv := by
  unfold applyPatch
  rw [follows_bind]
  refine (follows_call.mpr (quiet _ _ (.inl rfl) h)).mono (fun now x₁ h₁ => ?_) fun _ h => h
  rw [follows_bind, follows_check, Program.follows_pure]
  cases applied : patch.applyPlain now current with
  | error failure => exact h₁
  | ok base =>
    dsimp only
    split
    · exact (follows_pure _).mpr ⟨h₁, now, .plain applied⟩
    · unfold replan
      rw [follows_bind, follows_bind]
      refine (follows_call.mpr (quiet _ _ (.inr rfl) h₁)).mono (fun rows x₂ h₂ => ?_) fun _ h => h
      dsimp only
      split
      · exact (follows_throw _).mpr h₂
      · refine ((plan_asks (fun r made => made) _ _).follows inv
          (fun r x made => quiet r x (.inr made)) h₂).bind fun p x₃ h₃ => ?_
        exact (follows_pure _).mpr ((follows_pure _).mpr ⟨h₃, now, .replanned applied p⟩)

/-! ## Keeping to what was read -/

/-- The row of a rule is replaced only by one that has kept the records of the row that was seen
last, and in the version of that row. A row is seen where it is read, and where it is stored. -/
def Protocol.overwriting (id : RuleId) : Protocol (Option Entry) where
  Admits seen r :=
    match r with
    | .replaceRow next version =>
      next.id = id ∧ ∃ e, seen = some e ∧ version = e.version ∧ next.records = e.records
    | _ => True
  Leads seen r :=
    match r with
    | .getRow a => fun row seen' =>
      (∀ e, row = some e → e.id = a) ∧ seen' = if a = id then row else seen
    | .replaceRow next version => fun result seen' =>
      match result with
      | .ok stored => stored = { next with version := version + 1 } ∧ seen' = some stored
      | .error _ => seen' = seen
    | _ => fun _ seen' => seen' = seen

namespace Protocol

/-- While a rule is planned, another row is read, so that what was seen stays. -/
theorem overwriting_quiet (quiet : r = .now ∨ r.ofSchedule = true ∨ r.ofPlanning [id] = true) :
    (overwriting id).Admits seen r ∧
      ∀ answer seen', (overwriting id).Leads seen r answer seen' → seen' = seen := by
  rcases quiet with rfl | quiet | quiet
  · exact ⟨trivial, fun _ _ leads => leads⟩
  · cases r <;> simp [Request.ofSchedule] at quiet
    all_goals exact ⟨trivial, fun _ _ leads => leads⟩
  · cases r <;> simp [Request.ofPlanning] at quiet
    case getRow a => exact ⟨trivial, fun _ _ leads => by rw [leads.2, if_neg quiet]⟩
    case listRows => exact ⟨trivial, fun _ _ leads => leads⟩

/-- A request that is carried out goes on with the protocol. What was seen stays, or the row is
seen as it is then. -/
theorem overwriting_leads (indexed : s.catalog.Indexed)
    (admitted : (overwriting id).Admits seen r) :
    ∃ seen', (overwriting id).Leads seen r (s.perform r).1 seen' ∧
      (seen' = seen ∨ (r = .getRow id ∨ ∃ e version, r = .replaceRow e version) ∧
        (s.perform r).2.catalog.get? id = seen') := by
  cases r
  case getRow a =>
    refine ⟨_, ⟨fun e found => indexed.id_of_get? found, rfl⟩, ?_⟩
    split
    · next same => exact .inr ⟨.inl (by rw [same]), by rw [same]; rfl⟩
    · exact .inl rfl
  case replaceRow next version =>
    obtain ⟨same, -⟩ := admitted
    simp only [overwriting]
    cases result : (s.perform (.replaceRow next version)).1 with
    | error failure => exact ⟨seen, rfl, .inl rfl⟩
    | ok stored =>
      obtain ⟨current, -, -, made, rows⟩ := State.replaceRow_ok result
      refine ⟨some stored, ⟨made, rfl⟩, .inr ⟨.inr ⟨next, version, rfl⟩, ?_⟩⟩
      rw [Catalog.get?_of_put_at rows, if_pos same]
  all_goals exact ⟨seen, rfl, .inl rfl⟩

end Protocol

theorem schedule_follows_overwriting (rule : Rule) :
    (schedule setup rule).outcome.Follows (.overwriting id) seen fun _ seen' => seen' = seen :=
  (schedule_asks (fun _ made => made) rule).outcome.follows (· = seen)
    (fun _ _ made same => same ▸ Protocol.overwriting_quiet (.inr (.inl made))) rfl

/-- If the change is undone, the row from before takes the place of the one that was stored. -/
theorem commitUpdate_follows {stored : Entry} (warnings : List Warning) (same_id : current.id = id)
    (kept : current.records = stored.records) :
    (commitUpdate setup current stored warnings).Follows (.overwriting id) (some stored)
      (fun _ _ => True) fun _ => True := by
  unfold commitUpdate
  rw [follows_bind, follows_of]
  refine (schedule_follows_overwriting stored.rule).mono ?_
  rintro (failure | _) _ rfl
  · dsimp only
    rw [follows_bind]
    refine follows_call.mpr ⟨⟨same_id, stored, rfl, rfl, kept⟩, fun result seen' _ => ?_⟩
    split
    · rw [follows_bind, follows_of]
      exact (schedule_follows_overwriting _).mono fun _ _ _ => (follows_throw _).mpr trivial
    · exact (follows_throw _).mpr trivial
  · dsimp only
    rw [follows_bind]
    exact follows_call.mpr ⟨trivial, fun _ _ _ => (follows_pure _).mpr trivial⟩

theorem updateOnce_follows {again : Failure → Action RuleOutcome}
    (tried : ∀ failure seen, (again failure).Follows (.overwriting id) seen (fun _ _ => True)
      fun _ => True) (patch : RulePatch) :
    (updateOnce setup id patch again).Follows (.overwriting id) seen (fun _ _ => True)
      fun _ => True := by
  unfold updateOnce
  rw [follows_bind]
  refine follows_call.mpr ⟨trivial, ?_⟩
  rintro row _ ⟨own, rfl⟩
  rw [if_pos rfl]
  cases row with
  | none => exact (follows_throw _).mpr trivial
  | some current =>
    have same_id : current.id = id := own current rfl
    dsimp only
    rw [follows_bind]
    refine (applyPatch_follows current patch (· = some current) rfl ?_).mono ?_
      fun _ _ => trivial
    · rintro r _ quiet rfl
      rw [same_id] at quiet
      exact Protocol.overwriting_quiet (quiet.imp_right .inr)
    · rintro ⟨next, warnings⟩ _ ⟨rfl, now, amended⟩
      dsimp only at amended ⊢
      rw [follows_bind]
      have admitted : (Protocol.overwriting id).Admits (some current)
          (.replaceRow next current.version) :=
        ⟨amended.id_eq.trans same_id, current, rfl, rfl, amended.records_eq⟩
      refine follows_call.mpr ⟨admitted, fun result seen' leads => ?_⟩
      cases result with
      | ok stored =>
        obtain ⟨rfl, rfl⟩ := leads
        exact commitUpdate_follows warnings same_id amended.records_eq.symm
      | error failure =>
        dsimp only
        split
        · exact tried _ _
        · exact (follows_throw _).mpr trivial

/-- A change of a rule replaces the row only by one that was made of the row it has read. -/
theorem updateRule_follows (setup : Setup) (id : RuleId) (patch : RulePatch) :
    ((Mutation.update id patch).program setup).Follows (.overwriting id) seen fun _ _ => True := by
  have within : ∀ (more : Nat) (seen : Option Entry), (updateWithin setup id patch more).Follows
      (.overwriting id) seen (fun _ _ => True) fun _ => True := by
    intro more
    induction more with
    | zero => exact fun _ => updateOnce_follows (fun _ _ => (follows_throw _).mpr trivial) patch
    | succ fewer ih => exact fun _ => updateOnce_follows (fun _ => ih) patch
  have outcome : (updateRule setup id patch).outcome.Follows (.overwriting id) seen
      fun _ _ => True := (within 2 seen).outcome (fun _ _ _ => trivial) fun _ _ _ => trivial
  exact outcome.bind fun _ _ _ => (Program.follows_pure _).mpr trivial

/-! ## Many requests and many changes -/

/-- The state after a list of requests. -/
def State.performAll (s : State) (requests : List Request) : State :=
  requests.foldl (fun s r => (s.perform r).2) s

/-- The row of a rule after a list of requests. -/
def State.rowAfter (s : State) (id : RuleId) (requests : List Request) : Option Entry :=
  (s.performAll requests).catalog.get? id

/-- After a list of requests, another one writes the row of a rule. -/
def State.WritesAfter (s : State) (id : RuleId) (requests : List Request) (r : Request) : Prop :=
  (s.performAll requests).Writes id r

theorem State.rowAfter_step (s : State) (id : RuleId) (requests : List Request) (r : Request) :
    RowStep (s.WritesAfter id requests r) (s.rowAfter id requests)
      (s.rowAfter id (requests ++ [r])) := by
  simp only [rowAfter, performAll, List.foldl_append]
  exact State.perform_rowStep _ r id

namespace Clients

variable {k : Clients} {i : Nat} {turns : List Nat}

/-- The row of a rule after some turns. -/
def rowAfter (k : Clients) (id : RuleId) (turns : List Nat) : Option Entry :=
  (k.run turns).state.catalog.get? id

/-- After some turns, a change writes the row of a rule when it is its turn. -/
def WritesAfter (k : Clients) (id : RuleId) (turns : List Nat) (i : Nat) : Prop :=
  ∃ r, (k.run turns).request? i = some r ∧ (k.run turns).state.Writes id r

/-- When it is its turn, a change reads the row of a rule, or it stores it, and this is what the
row is then. -/
structure Learns (k : Clients) (i : Nat) (id : RuleId) (e : Entry) : Prop where
  asks : k.request? i = some (.getRow id) ∨
    ∃ stored version, k.request? i = some (.replaceRow stored version)
  row : (k.step i).state.catalog.get? id = some e

theorem run_append_singleton (k : Clients) (turns : List Nat) (i : Nat) :
    k.run (turns ++ [i]) = (k.run turns).step i := by
  simp [run]

theorem run_append (k : Clients) (turns later : List Nat) :
    k.run (turns ++ later) = (k.run turns).run later := by
  simp [run]

theorem rowAfter_append (k : Clients) (id : RuleId) (turns later : List Nat) :
    k.rowAfter id (turns ++ later) = (k.run turns).rowAfter id later := by
  rw [rowAfter, rowAfter, run_append]

theorem rowAfter_step (k : Clients) (id : RuleId) (turns : List Nat) (i : Nat) :
    RowStep (k.WritesAfter id turns i) (k.rowAfter id turns) (k.rowAfter id (turns ++ [i])) := by
  simp only [rowAfter, WritesAfter, run_append_singleton, state_step]
  cases (k.run turns).request? i with
  | none => exact .same _ (by simp)
  | some r => simpa using (k.run turns).state.perform_rowStep r id

theorem run_indexed (indexed : k.state.catalog.Indexed) (turns : List Nat) :
    (k.run turns).state.catalog.Indexed := by
  induction turns using List.reverseRecOn with
  | nil => exact indexed
  | append_singleton turns i ih =>
    rw [run_append_singleton, state_step]
    cases (k.run turns).request? i with
    | none => exact ih
    | some r => exact State.perform_indexed ih r

/-- What is left of a change keeps to the row that it has seen last, in one of its turns. -/
structure InProgress (k : Clients) (i : Nat) (id : RuleId) (turns : List Nat)
    (seen : Option Entry) : Prop where
  rest : ∃ rest, (k.run turns).calls[i]? = some rest ∧
    rest.Follows (.overwriting id) seen fun _ _ => True
  learned : ∀ e, seen = some e → ∃ earlier between, turns = earlier ++ [i] ++ between ∧
    (k.run earlier).Learns i id e

theorem request?_eq_some : k.request? i = some r ↔
    ∃ next, k.calls[i]? = some (.ask r next) ∧ k.state.blocks r = false := by
  unfold request?
  split
  · next asked next left => by_cases waits : k.state.blocks asked = true <;> grind
  · next none_left => exact ⟨nofun, fun ⟨next, left, _⟩ => absurd left (none_left r next)⟩

/-- In its own turn a change goes on with the protocol, or it has to wait, or it is over. -/
theorem step_self {rest : Program (Option Failure)} (left : k.calls[i]? = some rest)
    (follows : rest.Follows (.overwriting id) seen fun _ _ => True)
    (indexed : k.state.catalog.Indexed) :
    ∃ rest' seen', (k.step i).calls[i]? = some rest' ∧
      rest'.Follows (.overwriting id) seen' (fun _ _ => True) ∧
      (seen' = seen ∨ ∀ e, seen' = some e → k.Learns i id e) := by
  have stays : k.step i = k → ∃ rest' seen', (k.step i).calls[i]? = some rest' ∧
      rest'.Follows (.overwriting id) seen' (fun _ _ => True) ∧
      (seen' = seen ∨ ∀ e, seen' = some e → k.Learns i id e) :=
    fun same => ⟨rest, seen, same.symm ▸ left, follows, .inl rfl⟩
  cases rest with
  | done result => exact stays (by simp [step, left])
  | ask r next =>
    cases waits : k.state.blocks r with
    | true => exact stays (by simp [step, left, waits])
    | false =>
      obtain ⟨admitted, goes_on⟩ := Program.follows_ask.mp follows
      obtain ⟨seen', leads, was_seen⟩ := Protocol.overwriting_leads indexed admitted
      have asked : k.request? i = some r := by simp [request?, left, waits]
      have stepped : k.step i =
          ⟨(k.state.perform r).2, k.calls.set i (next (k.state.perform r).1)⟩ := by
        simp [step, left, waits]
      have listed : i < k.calls.length := (List.getElem?_eq_some_iff.mp left).1
      refine ⟨next (k.state.perform r).1, seen', ?_, goes_on _ _ leads, was_seen.imp_right ?_⟩
      · simp [stepped, listed]
      · rintro ⟨own, row⟩ e rfl
        refine ⟨?_, by rw [stepped]; exact row⟩
        rw [asked]
        simpa only [Option.some.injEq] using own

/-- In the turn of another change, a change stays as it is. -/
theorem step_other {j : Nat} (other : j ≠ i) : (k.step j).calls[i]? = k.calls[i]? := by
  unfold step
  split
  · split
    · rfl
    · exact List.getElem?_set_ne other
  · rfl

/-- From turn to turn, a change keeps to the row that it has seen last. -/
theorem exists_inProgress (indexed : k.state.catalog.Indexed)
    (called : k.calls[i]? = some ((Mutation.update id patch).program setup)) (turns : List Nat) :
    ∃ seen, k.InProgress i id turns seen := by
  induction turns using List.reverseRecOn with
  | nil => exact ⟨none, ⟨_, called, updateRule_follows setup id patch⟩, by simp⟩
  | append_singleton turns j ih =>
    obtain ⟨seen, ⟨rest, left, follows⟩, learned⟩ := ih
    have before : ∀ e, seen = some e → ∃ earlier between,
        turns ++ [j] = earlier ++ [i] ++ between ∧ (k.run earlier).Learns i id e := by
      intro e found
      obtain ⟨earlier, between, rfl, learns⟩ := learned e found
      exact ⟨earlier, between ++ [j], by simp, learns⟩
    by_cases own : j = i
    · subst own
      obtain ⟨rest', seen', left', follows', was_seen⟩ :=
        step_self left follows (run_indexed indexed turns)
      refine ⟨seen', ⟨rest', by rwa [run_append_singleton], follows'⟩, ?_⟩
      rcases was_seen with rfl | learns
      · exact before
      · exact fun e found => ⟨turns, [], by simp, learns e found⟩
    -- In the turn of another, nothing is learned and nothing is forgotten.
    · refine ⟨seen, ⟨rest, ?_, follows⟩, before⟩
      rw [run_append_singleton, step_other own, left]

end Clients

/-! ## Main result -/

/-- A row of a rule was read. After any requests of whomever, of which none gives a rule back a row
that it has lost, the row is replaced in the version that was read only if it was the same all the
while and nothing was written to it. If it was written meanwhile, replacing it fails, and nothing
changes in the catalogue.

So it is with a change of a rule in turns with anything else: where it replaces the row, it has
learned in an earlier turn of its own what the row is, nobody has written the row since then, and
the row that it puts in place keeps what runs have written down. -/
theorem no_update_lost (setup : Setup) (id : RuleId) (patch : RulePatch) :
    (∀ (s : State) (e next : Entry) (requests : List Request),
      s.catalog.get? id = some e → NeverReturns (s.rowAfter id) requests → next.id = id →
        ((∃ stored, ((s.performAll requests).perform (.replaceRow next e.version)).1 = .ok stored) →
          Unwritten (s.rowAfter id) (s.WritesAfter id) e requests) ∧
        ((∃ p r, p ++ [r] <+: requests ∧ s.WritesAfter id p r) →
          ∃ failure,
            ((s.performAll requests).perform (.replaceRow next e.version)).1 = .error failure ∧
            ((s.performAll requests).perform (.replaceRow next e.version)).2.catalog =
              (s.performAll requests).catalog ∧
            (failure = .ruleNotFound id ∨
              (∃ found, failure = .versionConflict id e.version found) ∨
              ∃ defect, failure = .invalidRule defect))) ∧
    ∀ (k : Clients) (i : Nat) (turns : List Nat) (next stored : Entry) (version : Nat),
      k.state.catalog.Indexed →
      k.calls[i]? = some ((Mutation.update id patch).program setup) →
      NeverReturns (k.rowAfter id) turns →
      (k.run turns).request? i = some (.replaceRow next version) →
      ((k.run turns).state.perform (.replaceRow next version)).1 = .ok stored →
      ∃ earlier between seen,
        turns = earlier ++ [i] ++ between ∧ (k.run earlier).Learns i id seen ∧
        Unwritten ((k.run (earlier ++ [i])).rowAfter id)
          ((k.run (earlier ++ [i])).WritesAfter id) seen between ∧
        next.id = id ∧ version = seen.version ∧ next.records = seen.records := by
  refine ⟨fun s e next requests found gone same_id => ?_, ?_⟩
  · constructor
    · rintro ⟨stored, replaced⟩
      obtain ⟨current, there, version, -, -⟩ := State.replaceRow_ok replaced
      rw [same_id] at there
      exact unwritten_of_version (s.rowAfter_step id) gone found there version
    · rintro ⟨p, r, prefixed, written⟩
      -- What is written counts the version up, and it never comes back.
      have changed : ∀ current, (s.performAll requests).catalog.get? next.id = some current →
          current.version ≠ e.version := by
        intro current there version
        rw [same_id] at there
        exact (unwritten_of_version (s.rowAfter_step id) gone found there version).not_written p r
          prefixed written
      rw [← same_id]
      exact State.replaceRow_refused changed
  · intro k i turns next stored version indexed called gone asked replaced
    -- As the change keeps to the protocol, it replaces the row that it has seen last.
    obtain ⟨seen, ⟨rest, left, follows⟩, learned⟩ := Clients.exists_inProgress indexed called turns
    obtain ⟨after, left', -⟩ := Clients.request?_eq_some.mp asked
    obtain rfl := Option.some.inj (left.symm.trans left')
    obtain ⟨same_id, e, rfl, rfl, records⟩ := (Program.follows_ask.mp follows).1
    obtain ⟨earlier, between, rfl, learns⟩ := learned e rfl
    refine ⟨earlier, between, e, rfl, learns, ?_, same_id, rfl, records⟩
    -- The version is still the one that was seen, so that nothing was written since then.
    obtain ⟨current, there, same_version, -, -⟩ := State.replaceRow_ok replaced
    rw [same_id, Clients.run_append] at there
    refine unwritten_of_version (Clients.rowAfter_step _ id) ?_ ?_ there same_version
    · have later := gone.shift
      simp only [Clients.rowAfter_append] at later
      exact later
    · rw [Clients.rowAfter, ← learns.row, Clients.run_append_singleton]
      rfl

/-! ## A run between reading and writing -/

private def cardRule : RuleId := RuleId.ofNat 1

private abbrev sevenRows : Request := .recordRefresh cardRule ⟨7, ⟨60, 0⟩, ⟨0, 0⟩⟩

private def withCards : State :=
  ((createRule {}
      { name := "cards", conditions := [.of "transaction_type" "=" (.text "CARD")] }).outcome.run
    (Setup.start {} (.still ⟨0, 0⟩) {})).2

private def cardRow : Entry := (withCards.catalog.get? cardRule).get (by decide +kernel)

/-- A rule gets a description while a run writes down its rows. -/
private def describing : Clients :=
  ⟨withCards,
    [(Mutation.update cardRule { description := some "paid by card" }).program {},
      Program.call sevenRows >>= fun _ => pure none]⟩

/-- The row is read, the run is written down, and the change fails and is tried again. -/
private def describingTurns : List Nat := [0, 1, 0, 0, 0, 0]

/-- The row that a change is about to put in place, and the version that it has seen. -/
private def Clients.replacing? (k : Clients) (i : Nat) : Option (Entry × Nat) :=
  match k.request? i with
  | some (.replaceRow next version) => some (next, version)
  | _ => none

private theorem Clients.request?_of_replacing? {k : Clients} {i : Nat} {x : Entry × Nat}
    (h : k.replacing? i = some x) : k.request? i = some (.replaceRow x.1 x.2) := by
  unfold replacing? at h
  split at h
  · next asked => rw [asked, ← Option.some.inj h]
  · cases h

private def describedRow : Entry × Nat :=
  ((describing.run describingTurns).replacing? 0).get (by decide +kernel)

private theorem exists_of_isOk {α : Type} {result : Except Failure α} (h : result.isOk = true) :
    ∃ v, result = .ok v := by
  cases result with
  | ok v => exact ⟨v, rfl⟩
  | error failure => cases h

/-- The row that was read is replaced if it was only looked at since then, and not if a run was
written down in it. A change that has read the row before such a run reads it again, and the row
that it puts in place says that there are seven rows. -/
theorem no_update_lost_described :
    Unwritten (withCards.rowAfter cardRule) (withCards.WritesAfter cardRule) cardRow [.listRows] ∧
      (∃ failure,
        ((withCards.performAll [sevenRows]).perform (.replaceRow cardRow cardRow.version)).1 =
          .error failure) ∧
      describedRow.1.segment.rowCount = 7 ∧
      ∃ earlier between seen, describingTurns = earlier ++ [0] ++ between ∧
        (describing.run earlier).Learns 0 cardRule seen ∧
        Unwritten ((describing.run (earlier ++ [0])).rowAfter cardRule)
          ((describing.run (earlier ++ [0])).WritesAfter cardRule) seen between ∧
        describedRow.1.records = seen.records := by
  obtain ⟨alone, among⟩ :=
    no_update_lost {} cardRule { description := some "paid by card" }
  have found : withCards.catalog.get? cardRule = some cardRow := by decide +kernel
  have own : cardRow.id = cardRule := by decide +kernel
  have stays (r : Request) (there : ∀ p ∈ [r].inits, (withCards.rowAfter cardRule p).isSome) :=
    alone withCards cardRow cardRow [r] found (.of_isSome there) own
  have looked := (stays .listRows (by decide +kernel)).1 (exists_of_isOk (by decide +kernel))
  have written : withCards.Writes cardRule sevenRows := ⟨rfl, by decide +kernel⟩
  obtain ⟨failure, refused, -⟩ :=
    (stays sevenRows (by decide +kernel)).2 ⟨[], sevenRows, List.prefix_rfl, written⟩
  have asked : (describing.run describingTurns).request? 0 =
      some (.replaceRow describedRow.1 describedRow.2) :=
    Clients.request?_of_replacing? (Option.some_get _).symm
  have indexed : withCards.catalog.Indexed := ⟨by decide +kernel, by decide +kernel⟩
  obtain ⟨stored, replaced⟩ : ∃ stored, ((describing.run describingTurns).state.perform
      (.replaceRow describedRow.1 describedRow.2)).1 = .ok stored :=
    exists_of_isOk (by decide +kernel)
  obtain ⟨earlier, between, seen, split, learns, unwritten, -, -, records⟩ :=
    among describing 0 describingTurns _ stored _ indexed rfl (.of_isSome (by decide +kernel)) asked
      replaced
  exact ⟨looked, ⟨failure, refused⟩, by decide +kernel, earlier, between, seen, split, learns,
    unwritten, records⟩

end Cohort
