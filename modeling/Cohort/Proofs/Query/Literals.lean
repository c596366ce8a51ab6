import Cohort.Proofs.Query.Canonical

/-!
# Texts within their literals

A text from outside gets into a query only as a literal. Whatever characters it has, the literal is
read back as the text, and it ends where it was closed. So a test of a text or a date is written
in its own way: no other test has its text, and it is not dropped for another one.

## Main results

* `Text.readQuoted_quote` — a literal is read back, up to its end
* `Literal.eq_of_render_eq` — a text or a date is known from its literal
* `Predicate.eq_of_render_eq` — a test of texts or dates is known from what is written
* `literals_keep_texts` — no text leaves its literal, and no test is taken for another one
-/

namespace Cohort

/-! ## Literals -/

/-- A literal is read back as the text that it was written for, and nothing behind it is read. -/
theorem Text.readQuoted_quote {rest : List Char} (ends : rest.head? ≠ some quoteMark) (s : String) :
    readQuoted ((quote s).toList ++ rest) = some (s.toList, rest) := by
  have endsQuote : EndsQuote rest := by
    rintro c more rfl rfl
    exact ends rfl
  rw [quote, String.toList_ofList, readQuoted_quoteChars endsQuote]

variable {l l' : Literal} {operator : Operator} {kind : ValueKind} {o o' : Operand}
  {p q : Predicate} {ps : List Predicate}

/-- A text or a date is known from its literal. -/
theorem Literal.eq_of_render_eq (quoted : l.kind ≠ .numeric) (same_kind : l.kind = l'.kind)
    (h : l.render = l'.render) : l = l' := by
  cases l with
  | number x => exact absurd rfl quoted
  | date d =>
    cases l' with
    | date d' => rw [Date.text_injective (quote_injective h)]
    | number x => cases same_kind
    | text s => cases same_kind
  | text s =>
    cases l' with
    | text s' => rw [quote_injective h]
    | number x => cases same_kind
    | date d => cases same_kind

/-- Lists of texts or dates are known from their literals, one by one. -/
theorem Literal.eq_of_map_render_eq {ls ls' : List Literal} (quoted : kind ≠ .numeric)
    (kinds : ∀ l ∈ ls, l.kind = kind) (kinds' : ∀ l ∈ ls', l.kind = kind)
    (h : ls.map render = ls'.map render) : ls = ls' := by
  induction ls generalizing ls' with
  | nil => exact (List.map_eq_nil_iff.mp h.symm).symm
  | cons l ls ih =>
    cases ls' with
    | nil => cases h
    | cons l' ls' =>
      obtain ⟨hl, kinds⟩ := List.forall_mem_cons.mp kinds
      obtain ⟨hl', kinds'⟩ := List.forall_mem_cons.mp kinds'
      obtain ⟨first, rest⟩ := List.cons.inj h
      rw [eq_of_render_eq (hl ▸ quoted) (hl.trans hl'.symm) first, ih kinds kinds' rest]

/-! ## Tests -/

/-- Operands of texts or dates are known from their literals. -/
theorem Operand.SameTexts.eq (h : o.SameTexts o') (quoted : kind ≠ .numeric)
    (fits : o.Fits operator kind) (fits' : o'.Fits operator kind) : o = o' := by
  have same : ∀ l l' : Literal, l.kind = kind → l'.kind = kind → l.render = l'.render → l = l' :=
    fun l l' hl hl' => Literal.eq_of_render_eq (hl ▸ quoted) (hl.trans hl'.symm)
  cases h with
  | scalar h => rw [same _ _ fits.2.2 fits'.2.2 h]
  | list h => rw [Literal.eq_of_map_render_eq quoted fits.2.2 fits'.2.2 h]
  | range hlow hhigh => rw [same _ _ fits.2.1 fits'.2.1 hlow, same _ _ fits.2.2 fits'.2.2 hhigh]

/-- A test of texts or dates is known from what is written. -/
theorem Predicate.eq_of_render_eq (hp : p.Proper) (hq : q.Proper)
    (quoted : p.field.valueKind ≠ .numeric) (h : p.render = q.render) : p = q := by
  obtain ⟨field, operator, texts⟩ := of_render_eq hp hq h
  unfold Proper at hp hq
  rw [← field, ← operator] at hq
  have operand := texts.eq quoted hp hq
  obtain ⟨pf, po, pv⟩ := p
  obtain ⟨qf, qo, qv⟩ := q
  dsimp only at field operator operand
  rw [field, operator, operand]

/-- The field has texts or dates for its values. -/
def Field.IsQuoted (field : Field) : Prop := field = .transactionType ∨ field = .transactionDate

theorem Field.IsQuoted.not_numeric {field : Field} (h : field.IsQuoted) :
    field.valueKind ≠ .numeric := by
  rcases h with rfl | rfl <;> decide

/-- An accepted test of texts or dates is known from what is written. -/
theorem Condition.eq_of_render_eq {c c' : Condition} (hp : c.accept = .ok p)
    (hq : c'.accept = .ok q) (quoted : p.field.IsQuoted) (h : p.render = q.render) : p = q :=
  Predicate.eq_of_render_eq (accept_proper hp) (accept_proper hq) quoted.not_numeric h

theorem nodup_canonical (ps : List Predicate) : (canonical ps).Nodup := by
  apply List.Nodup.of_map Predicate.render
  exact (ascending_canonical ps).imp ne_of_lt

/-- A test of texts or dates is not dropped for another one. -/
theorem mem_canonical (accepted : ∀ p ∈ ps, ∃ c : Condition, c.accept = .ok p) (hp : p ∈ ps)
    (quoted : p.field.IsQuoted) : p ∈ canonical ps := by
  obtain ⟨only, covered⟩ := canonical_spec ps
  -- One with its text stays, and that is the test itself.
  obtain ⟨q, hq, text⟩ := covered p hp
  obtain ⟨c, hc⟩ := accepted p hp
  obtain ⟨c', hc'⟩ := accepted q (only q hq)
  rwa [Condition.eq_of_render_eq hc hc' quoted text.symm]

/-- A literal is read back as its text, up to where it was closed, if no quote follows. So no two
tests of texts or dates are written in one way, whether they have one value, a list or a range, and
of any accepted tests each of these stays, once. -/
theorem literals_keep_texts :
    (∀ (s : String) (rest : List Char), rest.head? ≠ some Text.quoteMark →
      Text.readQuoted ((Text.quote s).toList ++ rest) = some (s.toList, rest)) ∧
    (∀ (c c' : Condition) (p p' : Predicate), c.accept = .ok p → c'.accept = .ok p' →
      p.field.IsQuoted → p.render = p'.render → p = p') ∧
    ∀ ps : List Predicate, (∀ p ∈ ps, ∃ c : Condition, c.accept = .ok p) →
      ∀ p ∈ ps, p.field.IsQuoted → (canonical ps).count p = 1 := by
  refine ⟨fun s rest ends => Text.readQuoted_quote ends s, ?_, ?_⟩
  · intro c c' p p' hp hp' quoted same
    exact Condition.eq_of_render_eq hp hp' quoted same
  · intro ps accepted p hp quoted
    exact List.count_eq_one_of_mem (nodup_canonical ps) (mem_canonical accepted hp quoted)

/-- A type of transactions whose name looks like two names in a list. -/
private def feigned : Condition := .of "transaction_type" "IN" (.list [.text "UPI', 'CARD"])

private def feignedAgain : Condition :=
  .of " Transaction_Type" "in" (.list [.text "UPI', 'CARD"])

private def twoTypes : Condition :=
  .of "transaction_type" "IN" (.list [.text "UPI", .text "CARD"])

private def typeIn (types : List String) : Predicate :=
  ⟨.transactionType, .isIn, .list (types.map .text)⟩

theorem literals_keep_texts_feigned :
    Text.readQuoted ((Text.quote "UPI', 'CARD").toList ++ [')']) =
        some ("UPI', 'CARD".toList, [')']) ∧
      (∃ p p', feigned.accept = .ok p ∧ feignedAgain.accept = .ok p' ∧ p = p') ∧
      (canonical [typeIn ["UPI', 'CARD"], typeIn ["UPI", "CARD"], typeIn ["UPI', 'CARD"]]).count
        (typeIn ["UPI', 'CARD"]) = 1 := by
  obtain ⟨reads, knows, keeps⟩ := literals_keep_texts
  have first : feigned.accept = .ok (typeIn ["UPI', 'CARD"]) := by rfl
  have again : feignedAgain.accept = .ok (typeIn ["UPI', 'CARD"]) := by rfl
  have second : twoTypes.accept = .ok (typeIn ["UPI", "CARD"]) := by rfl
  refine ⟨reads _ _ (by decide), ⟨_, _, first, again, knows _ _ _ _ first again (.inl rfl) rfl⟩, ?_⟩
  apply keeps _ _ _ List.mem_cons_self (.inl rfl)
  simp only [List.forall_mem_cons, List.not_mem_nil, false_implies, implies_true, and_true]
  exact ⟨⟨_, first⟩, ⟨_, second⟩, ⟨_, first⟩⟩

end Cohort
