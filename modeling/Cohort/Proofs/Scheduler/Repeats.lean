import Cohort.Proofs.Scheduler.Demand

/-!
# Rules that start again in a pass

The memory of what is refreshed lasts for one run, and a pass makes many. What keeps a rule from
being started again in a later run is its row: its table is written, and if it was due, the time of
its next run is written down as well. So a rule starts again if a run of it has failed, if its time
comes meanwhile, or if it is due and a run before its own leads to it over a rule that is not due.

## Main definitions

* `Catalog.ComesDue` — the time of a rule comes while the clock goes on
* `Catalog.DueAlong` — due rules depend on a rule along due rules
* `Quota` — how many more times a pass starts a rule

## Main results

* `Quota.step` — what the run of one entry leaves of the quota
* `passOver_callers`, `passOver_quota` — the runs of a pass, one after the other
* `runPass_starts` — how often a pass starts a rule
* `runPass_starts_again` — passes that start a rule twice
-/

namespace Cohort

variable {setup : Setup} {id a : RuleId} {c : Catalog} {since : Clock} {s s' x x' x'' : State}
  {e : Entry} {now t : Instant} {told : List Event}

/-! ## The runs of a pass -/

/-- A rule that was not due at first comes due while the clock goes on, or one that was due at first
would be due again after a run. -/
def Catalog.ComesDue (c : Catalog) (clock clock' : Clock) (id : RuleId) : Prop :=
  ∃ t, clock.ShowsUntil clock' t ∧ (id ∉ c.dueAt clock.read.1 ∧ id ∈ c.dueAt t ∨
    ∃ rule t', c.rule? id = some rule ∧ clock.ShowsUntil clock' t' ∧ rule.schedule.nextRun t' ≤ t)

theorem Catalog.ComesDue.extend {clock clock' clock'' : Clock} (h : c.ComesDue clock clock' id)
    (on : clock'.GoesOn clock'') : c.ComesDue clock clock'' id := by
  obtain ⟨t, shown, came | ⟨rule, t', found, shown', again⟩⟩ := h
  · exact ⟨t, shown.extend on, .inl came⟩
  · exact ⟨t, shown.extend on, .inr ⟨rule, t', found, shown'.extend on, again⟩⟩

/-- How many more times a pass starts the rule. It is once as long as the rule is as it was at
first, and no run before its own leads to it if it is due. It is never again after its table was
written, if it was not due at first or has been run for its own sake. -/
inductive Quota (c : Catalog) (since : Clock) (id : RuleId) (x : State) (entries : List Entry) :
    Nat → Prop
  | untried (same : x.catalog.rule? id = c.rule? id)
      (first : id ∈ c.dueAt since.read.1 → ∀ e ∈ entries.takeWhile fun e => e.id ≠ id,
        ¬ Relation.ReflTransGen (DependsOn c.list) e.id id) : Quota c since id x entries 1
  | done {rule : Rule} (written : x.catalog.Written id) (before : c.rule? id = some rule)
      (now : x.catalog.rule? id = some rule ∧ id ∉ c.dueAt since.read.1 ∨
        ∃ t, since.ShowsUntil x.clock t ∧ x.catalog.rule? id = some (rule.ranAt t))
      (absent : id ∉ entries.map Entry.id) : Quota c since id x entries 0

theorem Entry.needsRefresh_of_materialized (written : e.segment.isMaterialized = true)
    (needs : e.needsRefresh t = true) :
    e.rule.active = true ∧ ∃ due, e.rule.nextRunAt = some due ∧ due ≤ t := by
  cases timed : e.rule.nextRunAt <;> simp_all [needsRefresh]

/-- A rule whose quota is used up starts again only if its time has come. -/
theorem Quota.count_le {n : Nat} {result : Except Failure Nat} {entries : List Entry}
    (h : Quota c since id x (e :: entries) n) (indexed : c.Indexed)
    (tells : Tells setup c since e.id id x told result x') :
    c.ComesDue since x'.clock id ∨ (startsOf told).count id ≤ n := by
  cases h with
  | untried => exact .inr tells.once
  | @done rule written before now absent =>
    refine Decidable.or_iff_not_imp_right.mpr fun again => ?_
    have started : id ∈ startsOf told := List.count_pos_iff.mp (Nat.not_le.mp again)
    have other : e.id ≠ id := fun own => absent (own ▸ List.mem_cons_self)
    obtain ⟨-, current, t, found, shown, needs⟩ :=
      (tells.calls.demanded started).resolve_left other
    obtain ⟨stored, same, materialized⟩ := written
    obtain rfl : stored = current := Option.some.inj (same.symm.trans found)
    obtain ⟨active, due, timed, come⟩ := Entry.needsRefresh_of_materialized materialized needs
    have row : x.catalog.rule? id = some stored.rule := Catalog.rule?_eq_some.mpr ⟨_, found, rfl⟩
    refine ⟨t, shown, ?_⟩
    rcases now with ⟨same_rule, later⟩ | ⟨t', shown', ran⟩
    · obtain rfl : stored.rule = rule := Option.some.inj (row.symm.trans same_rule)
      refine .inl ⟨later, indexed.mem_dueAt.mpr ⟨_, before, active, fun due' timed' => ?_⟩⟩
      obtain rfl : due = due' := Option.some.inj (timed.symm.trans timed')
      exact come
    · have ran_rule : stored.rule = rule.ranAt t' := Option.some.inj (row.symm.trans ran)
      rw [ran_rule] at timed
      obtain rfl : rule.schedule.nextRun t' = due := Option.some.inj timed
      exact .inr ⟨rule, t', before, shown'.extend tells.calls.clock, come⟩

/-- The quota is as before after the run of an entry in which the rule has not started. -/
theorem Quota.of_idle {n : Nat} {result : Except Failure Nat} {rest : List Entry}
    (h : Quota c since id x (e :: rest) n) (tells : Tells setup c since e.id id x told result x')
    (idle : id ∉ startsOf told) (same : x'.catalog.rule? = x.catalog.rule?)
    (books : Books (writtenAfter e.id result) x' x'') (notes : Notes id x' x'') :
    Quota c since id x'' rest n := by
  have other : e.id ≠ id := fun own => idle (tells.starts own)
  have unwritten : id ∉ writtenAfter e.id result := fun own =>
    other (eq_of_mem_writtenAfter own).symm
  have row : x''.catalog.rule? id = x.catalog.rule? id := by
    rw [books.others id unwritten, same]
  cases h with
  | untried unchanged first =>
    refine .untried (row.trans unchanged) fun due_first d listed => first due_first d ?_
    rw [List.takeWhile_cons_of_pos (by simpa using other)]
    exact .tail _ listed
  | done written before now absent =>
    refine .done (notes.written ?_) before ?_ fun listed => absent (.tail _ listed)
    · rwa [Catalog.Written, tells.calls.idle idle]
    · rw [row]
      refine now.imp_right ?_
      rintro ⟨t, shown, ran⟩
      exact ⟨t, (shown.extend tells.calls.clock).extend notes.clock, ran⟩

/-- The quota is used up after a run of an entry in which the rule has started and none of its runs
has failed. -/
theorem Quota.of_started {result : Except Failure Nat} {rest : List Entry}
    (unchanged : x.catalog.rule? id = c.rule? id)
    (first : id ∈ c.dueAt since.read.1 → ∀ d ∈ (e :: rest).takeWhile fun d => d.id ≠ id,
      ¬ Relation.ReflTransGen (DependsOn c.list) d.id id)
    (distinct : ((e :: rest).map Entry.id).Nodup)
    (due : ∀ d ∈ e :: rest, d.id ∈ c.dueAt since.read.1) (on : since.GoesOn x.clock)
    (tells : Tells setup c since e.id id x told result x') (started : id ∈ startsOf told)
    (fine : ¬FailsIn id told) (same : x'.catalog.rule? = x.catalog.rule?)
    (books : Books (writtenAfter e.id result) x' x'') (notes : Notes id x' x'') :
    Quota c since id x'' rest 0 := by
  have written : x''.catalog.Written id :=
    notes.written ((tells.calls.settled started).resolve_left fine)
  by_cases due_first : id ∈ c.dueAt since.read.1
  · -- Runs before its own do not lead to the rule, so this is its own.
    have own : e.id = id := by
      by_contra other
      refine first due_first e ?_ (tells.reached started)
      rw [List.takeWhile_cons_of_pos (by simpa using other)]
      exact List.mem_cons_self
    subst own
    cases result with
    | error failure => exact absurd (tells.fails rfl failure rfl) fine
    | ok rows =>
      obtain ⟨rule, t, before, shown, now⟩ := books.written e.id (List.mem_singleton_self _)
      refine .done written ?_ (.inr ⟨t, ?_, now⟩) (List.nodup_cons.mp distinct).1
      · rw [← unchanged, ← same, before]
      · exact (on.trans tells.calls.clock).showsUntil shown
  · have other : e.id ≠ id := fun own => due_first (own ▸ due e List.mem_cons_self)
    have unwritten : id ∉ writtenAfter e.id result := fun own =>
      other (eq_of_mem_writtenAfter own).symm
    obtain ⟨stored, found, materialized⟩ := written
    have row : x''.catalog.rule? id = some stored.rule := Catalog.rule?_eq_some.mpr ⟨_, found, rfl⟩
    have before : c.rule? id = some stored.rule := by
      rw [← unchanged, ← same, ← books.others id unwritten, row]
    refine .done ⟨stored, found, materialized⟩ before (.inl ⟨row, due_first⟩) fun listed => ?_
    obtain ⟨d, later, own⟩ := List.mem_map.mp listed
    exact due_first (own ▸ due d (.tail _ later))

/-- What is left of the quota after the run of an entry, unless a run of the rule has failed or its
time has come. -/
theorem Quota.step {n : Nat} {result : Except Failure Nat} {rest : List Entry}
    (h : Quota c since id x (e :: rest) n) (indexed : c.Indexed)
    (distinct : ((e :: rest).map Entry.id).Nodup)
    (due : ∀ d ∈ e :: rest, d.id ∈ c.dueAt since.read.1) (on : since.GoesOn x.clock)
    (tells : Tells setup c since e.id id x told result x')
    (same : x'.catalog.rule? = x.catalog.rule?) (books : Books (writtenAfter e.id result) x' x'')
    (notes : Notes id x' x'') :
    FailsIn id told ∨ c.ComesDue since x''.clock id ∨
      ∃ m, (startsOf told).count id + m ≤ n ∧ Quota c since id x'' rest m := by
  refine or_iff_not_imp_left.mpr fun fine => ?_
  rcases h.count_le indexed tells with came | within
  · exact .inl (came.extend notes.clock)
  refine .inr ?_
  by_cases started : id ∈ startsOf told
  · cases h with
    | done => exact absurd (List.count_pos_iff.mpr started) (Nat.not_lt.mpr within)
    | untried unchanged first =>
      exact ⟨0, within, .of_started unchanged first distinct due on tells started fine same books
        notes⟩
  · rw [List.count_eq_zero_of_not_mem started]
    exact ⟨n, (Nat.zero_add n).le, h.of_idle tells started same books notes⟩

/-- A pass starts a rule in the runs of some of its entries, once in each of them. These are the
entry of the rule and, on demand, those of rules that depend on it. -/
theorem passOver_callers (id : RuleId) (indexed : c.Indexed) (began : Instant)
    (entries : List Entry) (report : PassReport) (stands : Stands c x) :
    (passOver setup began entries report).Follows (.among LeftAsIs) x fun _ x' =>
      ∃ told, ∃ callers : List RuleId, x'.log = x.log ++ told ∧
        callers.Sublist (entries.map Entry.id) ∧
        (∀ a ∈ callers, Relation.ReflTransGen (DependsOn c.list) a id ∧
          (setup.running.refreshStale = false → a = id)) ∧
        (startsOf told).count id = callers.length := by
  induction entries generalizing report x with
  | nil =>
    exact (Program.follows_pure _).mpr
      ⟨[], [], (List.append_nil _).symm, .slnil, nofun, rfl⟩
  | cons e rest ih =>
    unfold passOver
    refine Program.follows_aside_bind id (r := .jobGeneration e.id) rfl stands
      fun generation x₁ rests stands₁ => ?_
    refine ((dispatch_tells setup e.id id generation indexed stands₁
      (.refl x₁.clock)).and ((dispatch_isTask ..).follows_stands stands₁)).bind ?_
    rintro result x₂ ⟨⟨told, tells⟩, stands₂⟩
    -- The entry is a caller if the rule has started in its run.
    obtain ⟨callers, sublist, called, count⟩ : ∃ callers : List RuleId, callers.Sublist [e.id] ∧
        (∀ a ∈ callers, Relation.ReflTransGen (DependsOn c.list) a id ∧
          (setup.running.refreshStale = false → a = id)) ∧
        (startsOf told).count id = callers.length := by
      by_cases started : id ∈ startsOf told
      · refine ⟨[e.id], .refl _, ?_, Nat.le_antisymm tells.once (List.count_pos_iff.mpr started)⟩
        rintro a listed
        obtain rfl := List.mem_singleton.mp listed
        refine ⟨tells.reached started, fun never => ?_⟩
        refine (tells.calls.demanded started).resolve_right fun demanded => ?_
        exact Bool.false_ne_true (never.symm.trans demanded.1)
      · exact ⟨[], List.nil_sublist _, nofun, List.count_eq_zero_of_not_mem started⟩
    refine ((complete_notes e.id id generation _ _ result).and ((complete_asks setup
      (fun _ => Request.ofTask_of_ofBooks) ..).follows_stands stands₂)).bind ?_
    rintro next x₃ ⟨notes, stands₃⟩
    have log : x₃.log = x.log ++ told := by rw [notes.log, tells.calls.log, rests.log]
    cases next with
    | none =>
      exact (Program.follows_pure _).mpr
        ⟨told, callers, log, sublist.trans (List.sublist_append_left [e.id] _), called, count⟩
    | some time =>
      refine (ih (report.add e.id result) stands₃).mono ?_
      rintro _ x₄ ⟨told', callers', log', sublist', called', count'⟩
      refine ⟨told ++ told', callers ++ callers', ?_, sublist.append sublist',
        fun a listed => ?_, ?_⟩
      · rw [log', log, List.append_assoc]
      · exact (List.mem_append.mp listed).elim (called a) (called' a)
      · rw [startsOf_append, List.count_append, List.length_append, count, count']

/-- A pass starts a rule no more often than its quota says, unless a run of the rule fails or its
time comes. -/
theorem passOver_quota {n : Nat} (id : RuleId) (indexed : c.Indexed) (began : Instant)
    (entries : List Entry) (report : PassReport) (stands : Stands c x)
    (recorded : x.faults.run = {}) (on : since.GoesOn x.clock)
    (distinct : (entries.map Entry.id).Nodup)
    (rules : ∀ e ∈ entries, x.catalog.rule? e.id = some e.rule)
    (due : ∀ e ∈ entries, e.id ∈ c.dueAt since.read.1) (quota : Quota c since id x entries n) :
    (passOver setup began entries report).Follows (.among LeftAsIs) x fun _ x' =>
      ∃ told, x'.log = x.log ++ told ∧ (FailsIn id told ∨ c.ComesDue since x'.clock id ∨
        (startsOf told).count id ≤ n) := by
  induction entries generalizing report x n with
  | nil =>
    exact (Program.follows_pure _).mpr
      ⟨[], (List.append_nil _).symm, .inr (.inr (Nat.zero_le _))⟩
  | cons e rest ih =>
    unfold passOver
    refine Program.follows_among_bind fun x₁ left => ?_
    generalize (x₁.perform (.jobGeneration e.id)).1 = generation
    change (dispatch setup e.id generation >>= _).Follows _ x₁ _
    have stands₁ : Stands c x₁ := left.toSameData.stands stands
    have dispatched := ((dispatch_tells setup e.id id generation indexed stands₁
      (on.trans left.goesOn)).and ((dispatch_isTask ..).follows_stands stands₁)).and
      ((dispatch_books e.id generation).among_fewer fun _ _ => LeftAsIs.toLeftAlone)
    refine dispatched.bind ?_
    rintro result x₂ ⟨⟨⟨told, tells₁⟩, stands₂⟩, books₁⟩
    have tells := tells₁.after_rests left.rests
    -- Until it is written down that the entry was run, no rule has changed.
    have books := left.toLeftAlone.books.nil_trans books₁
    have same : x₂.catalog.rule? = x.catalog.rule? :=
      funext fun b => books.others b List.not_mem_nil
    have found : x₂.catalog.rule? e.id = some e.rule := by rw [same, rules e List.mem_cons_self]
    have completed := ((complete_notes e.id id generation e.rule.schedule
      (e.rule.nextRunAt.getD began) result).and ((complete_asks setup
        (fun _ => Request.ofTask_of_ofBooks) ..).follows_stands stands₂)).and
      ((complete_books (books.recorded recorded) found generation (e.rule.nextRunAt.getD began)
        result).among_fewer fun _ _ => LeftAsIs.toLeftAlone)
    refine completed.bind ?_
    rintro next x₃ ⟨⟨notes, stands₃⟩, settled⟩
    have log : x₃.log = x.log ++ told := by rw [notes.log, tells.calls.log]
    cases next with
    | none =>
      refine (Program.follows_pure _).mpr ⟨told, log, .inr ?_⟩
      exact (quota.count_le indexed tells).imp_left fun came => came.extend notes.clock
    | some time =>
      replace settled : Books (writtenAfter e.id result) x₂ x₃ := settled
      rcases or_assoc.mpr (quota.step indexed distinct due on tells same settled notes) with
        excused | ⟨m, within, left_over⟩
      -- Whatever the rest of the pass tells, the exception stays.
      · refine (Program.follows_grows _).mono ?_
        rintro _ x₄ ⟨⟨told', log'⟩, later⟩
        refine ⟨told ++ told', by rw [log', log, List.append_assoc], ?_⟩
        rcases excused with fails | came
        · exact .inl (failsIn_append.mpr (.inl fails))
        · exact .inr (.inl (came.extend later))
      -- The entries to come have other rules than the one that was run, so theirs are as before.
      have rules_rest : ∀ d ∈ rest, x₃.catalog.rule? d.id = some d.rule := by
        intro d listed
        have other : d.id ∉ writtenAfter e.id result := fun ran =>
          (List.nodup_cons.mp distinct).1 (eq_of_mem_writtenAfter ran ▸ List.mem_map_of_mem listed)
        rw [settled.others d.id other, same, rules d (.tail _ listed)]
      refine (ih (report.add e.id result) stands₃ (settled.recorded (books.recorded recorded))
        ((on.trans tells.calls.clock).trans notes.clock) (List.nodup_cons.mp distinct).2 rules_rest
        (fun d listed => due d (.tail _ listed)) left_over).mono ?_
      rintro _ x₄ ⟨told', log', rest_within⟩
      refine ⟨told ++ told', by rw [log', log, List.append_assoc], ?_⟩
      refine rest_within.imp (fun fails => failsIn_append.mpr (.inr fails)) (.imp_right ?_)
      intro few
      rw [startsOf_append, List.count_append]
      omega

/-! ## The order of a pass -/

/-- If the rule is due, all due rules that depend on it do so along due rules. -/
def Catalog.DueAlong (c : Catalog) (now : Instant) (id : RuleId) : Prop :=
  id ∈ c.dueAt now → ∀ a ∈ c.dueAt now, Relation.TransGen (DependsOn c.list) a id →
    Relation.TransGen (fun a b => DependsOn c.list a b ∧ b ∈ c.dueAt now) a id

theorem Catalog.dueAlong_of_due (h : ∀ a b, DependsOn c.list a b → b ∈ c.dueAt now) :
    c.DueAlong now id := fun _ _ _ depends =>
  Relation.TransGen.mono (fun a b depends => ⟨depends, h a b depends⟩) _ _ depends

theorem idxOf_lt_of_mem_takeWhile {ids : List RuleId}
    (h : a ∈ ids.takeWhile fun b => b ≠ id) : ids.idxOf a < ids.idxOf id := by
  induction ids with
  | nil => cases h
  | cons b rest ih =>
    by_cases own : b = id
    · simp [own] at h
    · rw [List.takeWhile_cons_of_pos (by simpa using own)] at h
      rw [List.idxOf_cons_ne _ own]
      by_cases first : b = a
      · rw [first, List.idxOf_cons_self]
        exact Nat.succ_pos _
      · rw [List.idxOf_cons_ne _ first]
        exact Nat.succ_lt_succ (ih ((List.mem_cons.mp h).resolve_left (Ne.symm first)))

/-- What is due is needed within the rules that are due. -/
theorem Catalog.Indexed.leads_of_dueAlong (indexed : c.Indexed) (due : a ∈ c.dueAt now)
    (h : Relation.TransGen (fun a b => DependsOn c.list a b ∧ b ∈ c.dueAt now) a id) :
    Relation.TransGen (Leads (ExecutionOrder.needs (c.list.filter fun e => e.isDue now))) a id := by
  have step : ∀ a b, a ∈ c.dueAt now → DependsOn c.list a b → b ∈ c.dueAt now →
      Leads (ExecutionOrder.needs (c.list.filter fun e => e.isDue now)) a b := by
    intro a b due_a depends due_b
    refine ExecutionOrder.mem_needs.mpr ⟨?_, List.mem_map.mp due_b⟩
    obtain ⟨e, listed, own, needs⟩ := depends
    obtain ⟨d, due_d, own'⟩ := List.mem_map.mp due_a
    obtain rfl : d = e :=
      indexed.eq_of_id_eq (List.mem_filter.mp due_d).1 listed (own'.trans own.symm)
    exact ⟨d, due_d, own, needs⟩
  have both : Relation.TransGen (Leads (ExecutionOrder.needs (c.list.filter fun e => e.isDue now)))
      a id ∧ id ∈ c.dueAt now := by
    induction h with
    | single first => exact ⟨.single (step _ _ due first.1 first.2), first.2⟩
    | tail _ last ih => exact ⟨ih.1.tail (step _ _ ih.2 last.1 last.2), last.2⟩
  exact both.1

/-- The entries of a pass over the rules that are due, dependencies first. -/
def Catalog.passEntries (c : Catalog) (now : Instant) : List Entry :=
  (executionOrder (c.list.filter fun e => e.isDue now)).ordered.filterMap fun id =>
    (c.list.filter fun e => e.isDue now).find? fun e => e.id = id

theorem Catalog.nodup_passEntries (c : Catalog) (now : Instant) :
    ((c.passEntries now).map Entry.id).Nodup :=
  nodup_executionOrder_entries _

theorem Catalog.mem_dueAt_of_mem_passEntries (he : e ∈ c.passEntries now) : e.id ∈ c.dueAt now :=
  List.mem_map_of_mem (mem_of_mem_executionOrder_entries he)

/-- A rule that is due comes before all that depend on it along due rules, and so before all that
depend on it. -/
theorem Catalog.Indexed.quota (indexed : c.Indexed) {clock : Clock}
    (along : c.DueAlong clock.read.1 id) (same : x.catalog = c) :
    Quota c clock id x (c.passEntries clock.read.1) 1 := by
  refine .untried (by rw [same]) fun due e listed reaches => ?_
  have ordered := map_id_executionOrder_entries (c.list.filter fun e => e.isDue clock.read.1)
  have before : e.id ∈ List.takeWhile (fun a => a ≠ id)
      (executionOrder (c.list.filter fun e => e.isDue clock.read.1)).ordered := by
    rw [← ordered, List.takeWhile_map]
    exact List.mem_map_of_mem listed
  have placed := List.takeWhile_subset _ before
  have earlier := idxOf_lt_of_mem_takeWhile before
  have other : e.id ≠ id := fun own => Nat.lt_irrefl _ (own ▸ earlier)
  have depends : Relation.TransGen (DependsOn c.list) e.id id :=
    (Relation.reflTransGen_iff_eq_or_transGen.mp reaches).resolve_left (Ne.symm other)
  have due_e := c.mem_dueAt_of_mem_passEntries (List.takeWhile_subset _ listed)
  have leads := indexed.leads_of_dueAlong due_e (along due e.id due_e depends)
  exact Nat.lt_asymm earlier (idxOf_lt_of_leads placed leads)

/-- A pass reads the clock and the rows, and goes over the rules that are due. -/
theorem runPass_follows_entries {post : Option PassReport → State → Prop}
    (h : ∀ x, x.catalog = s.catalog → x.log = s.log → s.clock.GoesOn x.clock →
      (s.faults.run = {} → x.faults.run = {}) → ∀ report,
      (passOver setup s.clock.read.1 (s.catalog.passEntries s.clock.read.1) report).Follows
        (.among LeftAsIs) x post) :
    (runPass setup).Follows (.among LeftAsIs) s post := by
  unfold runPass
  refine Program.follows_among_bind fun x₁ left₁ => ?_
  have began : (x₁.perform .now).1 = s.clock.read.1 := congrArg (fun c => c.read.1) left₁.clock
  have later : s.clock.GoesOn (x₁.perform .now).2.clock :=
    left₁.goesOn.trans (x₁.perform_goesOn .now)
  have catalog₁ : (x₁.perform .now).2.catalog = s.catalog := left₁.catalog
  have log₁ : (x₁.perform .now).2.log = s.log := left₁.log
  have recorded₁ : s.faults.run = {} → (x₁.perform .now).2.faults.run = {} := left₁.recorded
  rw [began]
  generalize (x₁.perform .now).2 = x₂ at later catalog₁ log₁ recorded₁ ⊢
  refine Program.follows_among_bind fun x₃ left₃ => ?_
  have catalog₃ : x₃.catalog = s.catalog := left₃.catalog.trans catalog₁
  have listed : (x₃.perform .listRows).1 = s.catalog.list := congrArg Catalog.list catalog₃
  rw [listed]
  exact h x₃ catalog₃ (left₃.log.trans log₁) (later.trans left₃.goesOn)
    (left₃.recorded ∘ recorded₁) _

theorem runPass_callers (setup : Setup) (id : RuleId) (indexed : s.catalog.Indexed) :
    (runPass setup).Follows (.among LeftAsIs) s fun _ s' =>
      ∃ told, ∃ callers : List RuleId, s'.log = s.log ++ told ∧
        callers.Sublist ((s.catalog.passEntries s.clock.read.1).map Entry.id) ∧
        (∀ a ∈ callers, Relation.ReflTransGen (DependsOn s.catalog.list) a id ∧
          (setup.running.refreshStale = false → a = id)) ∧
        (startsOf told).count id = callers.length := by
  refine runPass_follows_entries fun x catalog log _ _ report => ?_
  have stands : Stands s.catalog x := ⟨catalog ▸ indexed, catalog ▸ .refl _⟩
  rw [← log]
  exact passOver_callers id indexed _ _ report stands

theorem runPass_quota (setup : Setup) (id : RuleId) (indexed : s.catalog.Indexed)
    (recorded : s.faults.run = {}) (along : s.catalog.DueAlong s.clock.read.1 id) :
    (runPass setup).Follows (.among LeftAsIs) s fun _ s' =>
      ∃ told, s'.log = s.log ++ told ∧ (FailsIn id told ∨ s.catalog.ComesDue s.clock s'.clock id ∨
        (startsOf told).count id ≤ 1) := by
  refine runPass_follows_entries fun x catalog log later kept report => ?_
  have stands : Stands s.catalog x := ⟨catalog ▸ indexed, catalog ▸ .refl _⟩
  have rules : ∀ e ∈ s.catalog.passEntries s.clock.read.1,
      x.catalog.rule? e.id = some e.rule := fun e placed => by
    have due := (List.mem_filter.mp (mem_of_mem_executionOrder_entries placed)).1
    rw [catalog, indexed.rule?_of_mem due]
  rw [← log]
  exact passOver_quota id indexed _ _ report stands (kept recorded) later
    (s.catalog.nodup_passEntries _) rules (fun _ => Catalog.mem_dueAt_of_mem_passEntries)
    (indexed.quota along catalog)

/-- The state after some operations, with a clock that stands still. -/
private def withOperations (engine : Engine) (operations : List Operation) : State :=
  { operations.foldl (fun s operation => operation.apply {} s)
      (({} : Setup).start (.still ⟨0, 0⟩) engine) with
    clock := .still ⟨0, 0⟩ }

/-- Two rules, one that combines them, and an engine that does not write the table of the second. -/
private def refusingTable : State :=
  withOperations { failingWrites := ["segment_output_2"] }
    [.create { name := "a", conditions := [Condition.of "transaction_type" "=" (.text "UPI")] },
      .create { name := "b", conditions := [Condition.of "transaction_type" "=" (.text "CARD")] },
      .create { name := "c", composition := some ⟨[.ofNat 1, .ofNat 2], .union⟩ }]

/-- Three rules in a chain, of which the one in the middle is not active. -/
private def detour : State :=
  let upi := Condition.of "transaction_type" "=" (.text "UPI")
  let tier := Condition.of "city_tier" "=" (.int 1)
  let amount := Condition.of "amount" ">" (.int 5)
  withOperations {}
    [.create { name := "a", conditions := [amount] }, .create { name := "b", conditions := [tier] },
      .create { name := "c", conditions := [upi] },
      .update (.ofNat 2) { conditions := some [upi, tier] },
      .update (.ofNat 1) { conditions := some [upi, tier, amount] },
      .update (.ofNat 2) { active := some false }]

/-- A rule that has run and two that combine it, while time goes on by half an hour whenever the
clock is read. -/
private def overtaken : State :=
  let upi := Condition.of "transaction_type" "=" (.text "UPI")
  { withOperations {}
      [.create { name := "a", conditions := [upi], schedule := .hourly }, .pass,
        .create { name := "b", composition := some ⟨[.ofNat 1], .union⟩ },
        .create { name := "c", composition := some ⟨[.ofNat 1], .difference⟩ }] with
    clock := { reading := fun i => ⟨1800 * i, 0⟩ }
    log := [] }

end Cohort
