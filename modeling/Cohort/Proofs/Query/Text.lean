import Mathlib.Tactic.ByContra
import Cohort.Proofs.Calendar.DateText
import Cohort.Proofs.Decimal.Characters
import Cohort.Proofs.Decimal.Printing
import Cohort.Proofs.Text.Quoted
import Cohort.Proofs.Text.Separated

/-!
# The SQL text of a test

The text of a test begins with its field and its operator, and each constant in it shows where
it ends. The text of a constant tells how it compares, that of a number too. So the text
determines the meaning of the test.

## Main definitions

* `Predicate.Proper` — the operand is one for the operator and the field
* `Operand.SameTexts` — the operands have one form, and constants with the same texts

## Main results

* `Literal.render_append_inj` — a constant in a text shows where it ends
* `Predicate.of_render_eq` — what two tests with one text have in common
* `Predicate.alike_of_render_eq` — tests with one text are alike
-/

namespace Cohort

/-! ## Constants -/

namespace Literal

/-- What kind of value a constant is. -/
def kind : Literal → ValueKind
  | .number _ => .numeric
  | .date _ => .date
  | .text _ => .text

/-- The characters that follow a constant in a test. -/
def isStop (c : Char) : Bool := c == ' ' || c == ',' || c == ')'

/-- Nothing follows, or a character that stops a constant. -/
def Ends (rest : List Char) : Prop := ∀ c more, rest = c :: more → isStop c = true

variable {l l' : Literal} {rest rest' : List Char}

theorem Ends.endsQuote (h : Ends rest) : Text.EndsQuote rest := by
  rintro c more hrest rfl
  exact absurd (h _ more hrest) (by decide)

theorem isStop_of_isNumeralOrName {c : Char} (h : Decimal.isNumeralOrName c = true) :
    isStop c = false := by
  by_contra stop
  simp only [isStop, Bool.not_eq_false, Bool.or_eq_true, beq_iff_eq] at stop
  rcases stop with (rfl | rfl) | rfl <;> exact absurd h (by decide)

/-- A constant in a text shows where it ends. -/
theorem render_append_inj (same_kind : l.kind = l'.kind) (ends : Ends rest) (ends' : Ends rest')
    (h : l.render.toList ++ rest = l'.render.toList ++ rest') :
    l.render.toList = l'.render.toList ∧ rest = rest' := by
  -- No character of a number stops it.
  have no_stop : ∀ x, ∀ c ∈ (Decimal.writeNumber x).toList, isStop c = false := fun x c hc =>
    isStop_of_isNumeralOrName (List.all_eq_true.mp (Decimal.writeNumber_spec x) c hc)
  have quoted : ∀ s s' : String,
      (Text.quote s).toList ++ rest = (Text.quote s').toList ++ rest' →
      (Text.quote s).toList = (Text.quote s').toList ∧ rest = rest' := by
    intro s s' hs
    rw [Text.quote, Text.quote, String.toList_ofList, String.toList_ofList] at hs ⊢
    obtain ⟨same, rests⟩ := Text.quoteChars_append_inj ends.endsQuote ends'.endsQuote hs
    exact ⟨congrArg Text.quoteChars same, rests⟩
  cases l <;> cases l' <;> simp only [kind, reduceCtorEq] at same_kind
  · exact Text.append_inj_of_stop (no_stop _) (no_stop _) ends ends' h
  · exact quoted _ _ h
  · exact quoted _ _ h

/-- The characters are those of a constant of a kind. -/
def IsTextOf (kind : ValueKind) (cs : List Char) : Prop :=
  ∃ l : Literal, l.kind = kind ∧ l.render.toList = cs

/-- Constants of one kind in a list can be told apart. -/
theorem renders_eq {kind : ValueKind} {ls ls' : List Literal} (some_ls : ls ≠ [])
    (some_ls' : ls' ≠ []) (kinds : ∀ l ∈ ls, l.kind = kind) (kinds' : ∀ l ∈ ls', l.kind = kind)
    (h : [',', ' '].intercalate (ls.map fun l => l.render.toList) =
      [',', ' '].intercalate (ls'.map fun l => l.render.toList)) :
    (ls.map fun l => l.render.toList) = ls'.map fun l => l.render.toList := by
  have apart : ∀ a b rest rest', IsTextOf kind a → IsTextOf kind b → Ends rest → Ends rest' →
      a ++ rest = b ++ rest' → a = b ∧ rest = rest' := by
    rintro _ _ rest rest' ⟨l, hl, rfl⟩ ⟨l', hl', rfl⟩ ends ends' same
    exact render_append_inj (hl.trans hl'.symm) ends ends' same
  have ends_nil : Ends [] := fun c more hc => by cases hc
  have ends_comma : ∀ rest, Ends ([',', ' '] ++ rest) := by
    rintro rest c more hc
    obtain ⟨rfl, -⟩ := List.cons.inj hc
    decide
  exact Text.intercalate_inj (List.cons_ne_nil _ _) apart ends_nil ends_comma _ _
    (by simpa using some_ls) (by simpa using some_ls')
    (List.forall_mem_map.mpr fun l hl => ⟨l, kinds l hl, rfl⟩)
    (List.forall_mem_map.mpr fun l hl => ⟨l, kinds' l hl, rfl⟩) h

theorem quote_injective : Function.Injective Text.quote := by
  intro s s' h
  have chars := congrArg String.toList h
  rw [Text.quote, Text.quote, String.toList_ofList, String.toList_ofList] at chars
  have nothing : Text.EndsQuote [] := fun c more h => by cases h
  have same := Text.quoteChars_append_inj nothing nothing (congrArg (· ++ []) chars)
  exact String.toList_inj.mp same.1

/-- Constants of one kind with one text are alike. -/
theorem alike_of_render_eq (same_kind : l.kind = l'.kind) (h : l.render = l'.render) :
    l.Alike l' := by
  cases l <;> cases l' <;> simp only [kind, reduceCtorEq] at same_kind
  · exact Decimal.alike_of_writeNumber_eq h
  · rw [Date.text_injective (quote_injective h)]
    exact .refl _
  · rw [quote_injective h]
    exact .refl _

end Literal

/-! ## Tests -/

/-- The operand is one for the operator, with constants of a kind. -/
def Operand.Fits (operator : Operator) (kind : ValueKind) : Operand → Prop
  | .scalar l => operator.takesList = false ∧ operator ≠ .between ∧ l.kind = kind
  | .list ls => operator.takesList = true ∧ ls ≠ [] ∧ ∀ l ∈ ls, l.kind = kind
  | .range low high => operator = .between ∧ low.kind = kind ∧ high.kind = kind

/-- The characters of an operand. -/
def Operand.chars : Operand → List Char
  | .scalar l => l.render.toList
  | .list ls => '(' :: ([',', ' '].intercalate (ls.map fun l => l.render.toList) ++ [')'])
  | .range low high => low.render.toList ++ (" AND ".toList ++ high.render.toList)

/-- The first word of an operator. -/
def Operator.word (operator : Operator) : List Char :=
  operator.symbol.toList.takeWhile fun c => c != ' '

theorem Operator.word_injective : ∀ a b : Operator, a.word = b.word → a = b := by
  intro a b
  cases a <;> cases b <;> decide

theorem Operator.takeWhile_symbol (operator : Operator) (more : List Char) :
    (operator.symbol.toList ++ ' ' :: more).takeWhile (fun c => c != ' ') = operator.word := by
  cases operator <;> simp [symbol, word]

theorem Field.space_not_mem_expression (field : Field) :
    ∀ c ∈ field.expression.toList, (c == ' ') = false := by
  have no_space : (field.expression.toList.all fun c => !(c == ' ')) = true := by
    cases field <;> decide
  intro c hc
  exact (Bool.not_eq_true' _).mp (List.all_eq_true.mp no_space c hc)

theorem Field.expression_injective : ∀ a b : Field, a.expression = b.expression → a = b := by
  intro a b
  cases a <;> cases b <;> decide

namespace Predicate

/-- The operand is one for the operator and the field. -/
def Proper (p : Predicate) : Prop := p.operand.Fits p.operator p.field.valueKind

variable {p q : Predicate}

/-- The text of a test: its field, its operator and its operand. -/
theorem Proper.toList_render (h : p.Proper) : p.render.toList =
    p.field.expression.toList ++ ' ' :: (p.operator.symbol.toList ++ ' ' :: p.operand.chars) := by
  obtain ⟨field, operator, operand⟩ := p
  cases operand with
  | scalar l => simp [render, Operand.chars]
  | list ls => simp [render, Operand.chars, Function.comp_def]
  | range low high =>
    obtain ⟨rfl, -⟩ := h
    simp [render, Operand.chars, Operator.symbol]

end Predicate

/-- The operands have one form, and constants with the same texts, one by one. -/
inductive Operand.SameTexts : Operand → Operand → Prop
  | scalar {l l' : Literal} (h : l.render = l'.render) : SameTexts (.scalar l) (.scalar l')
  | list {ls ls' : List Literal} (h : ls.map Literal.render = ls'.map Literal.render) :
      SameTexts (.list ls) (.list ls')
  | range {low low' high high' : Literal} (hlow : low.render = low'.render)
      (hhigh : high.render = high'.render) : SameTexts (.range low high) (.range low' high')

/-- The characters of an operand determine its form and the texts of its constants. -/
theorem Operand.Fits.sameTexts {operator : Operator} {kind : ValueKind} {o o' : Operand}
    (fits : o.Fits operator kind) (fits' : o'.Fits operator kind) (h : o.chars = o'.chars) :
    o.SameTexts o' := by
  -- Both operands are for one operator, so they have one form.
  cases o with
  | scalar l =>
    obtain ⟨no_list, no_range, -⟩ := fits
    cases o' with
    | scalar l' => exact .scalar (String.toList_inj.mp h)
    | list ls' => exact absurd (no_list.symm.trans fits'.1) Bool.false_ne_true
    | range low' high' => exact absurd fits'.1 no_range
  | list ls =>
    obtain ⟨takes_list, some_ls, kinds⟩ := fits
    cases o' with
    | scalar l' => exact absurd (fits'.1.symm.trans takes_list) Bool.false_ne_true
    | range low' high' =>
      rw [fits'.1] at takes_list
      cases takes_list
    | list ls' =>
      obtain ⟨-, some_ls', kinds'⟩ := fits'
      have inner : [',', ' '].intercalate (ls.map fun l => l.render.toList) =
          [',', ' '].intercalate (ls'.map fun l => l.render.toList) :=
        List.append_cancel_right (List.cons.inj h).2
      -- The texts of the items are the same, one by one.
      have chars := Literal.renders_eq some_ls some_ls' kinds kinds' inner
      have texts := congrArg (List.map String.ofList) chars
      simp only [List.map_map, Function.comp_def, String.ofList_toList] at texts
      exact .list texts
  | range low high =>
    obtain ⟨rfl, hlow, hhigh⟩ := fits
    cases o' with
    | scalar l' => exact absurd rfl fits'.2.1
    | list ls' => exact absurd fits'.1 Bool.false_ne_true
    | range low' high' =>
      obtain ⟨-, hlow', hhigh'⟩ := fits'
      -- The lower bound ends where ` AND ` begins.
      have ends : ∀ rest, Literal.Ends (" AND ".toList ++ rest) := by
        rintro rest c more hc
        obtain ⟨rfl, -⟩ := List.cons.inj hc
        decide
      obtain ⟨same_low, rests⟩ := Literal.render_append_inj (hlow.trans hlow'.symm) (ends _)
        (ends _) h
      exact .range (String.toList_inj.mp same_low)
        (String.toList_inj.mp (List.append_cancel_left rests))

/-- Constants with the same texts are alike. -/
theorem Operand.SameTexts.alike {operator : Operator} {kind : ValueKind} {o o' : Operand}
    (h : o.SameTexts o') (fits : o.Fits operator kind) (fits' : o'.Fits operator kind) :
    o.Alike o' := by
  have alike : ∀ l l' : Literal, l.kind = kind → l'.kind = kind → l.render = l'.render →
      l.Alike l' := fun l l' hl hl' => Literal.alike_of_render_eq (hl.trans hl'.symm)
  cases h with
  | scalar same => exact .scalar (alike _ _ fits.2.2 fits'.2.2 same)
  | range same_low same_high =>
    exact .range (alike _ _ fits.2.1 fits'.2.1 same_low) (alike _ _ fits.2.2 fits'.2.2 same_high)
  | @list ls ls' texts =>
    obtain ⟨-, -, kinds⟩ := fits
    obtain ⟨-, -, kinds'⟩ := fits'
    refine .list (fun l hl => ?_) (fun l' hl' => ?_)
    · have there : l.render ∈ ls'.map Literal.render := texts ▸ List.mem_map.mpr ⟨l, hl, rfl⟩
      obtain ⟨l', hl', same⟩ := List.mem_map.mp there
      exact ⟨l', hl', alike l l' (kinds l hl) (kinds' l' hl') same.symm⟩
    · have there : l'.render ∈ ls.map Literal.render := texts ▸ List.mem_map.mpr ⟨l', hl', rfl⟩
      obtain ⟨l, hl, same⟩ := List.mem_map.mp there
      exact ⟨l, hl, alike l l' (kinds l hl) (kinds' l' hl') same⟩

/-- The text of a proper test determines its field, its operator and the texts of its constants. -/
theorem Predicate.of_render_eq {p q : Predicate} (hp : p.Proper) (hq : q.Proper)
    (h : p.render = q.render) :
    p.field = q.field ∧ p.operator = q.operator ∧ p.operand.SameTexts q.operand := by
  have chars := congrArg String.toList h
  rw [hp.toList_render, hq.toList_render] at chars
  -- The field ends at the first space, and the first word behind it shows the operator.
  have space : ∀ rest c more, ' ' :: rest = c :: more → (c == ' ') = true := by
    rintro rest c more hc
    obtain ⟨rfl, -⟩ := List.cons.inj hc
    rfl
  obtain ⟨expressions, rests⟩ := Text.append_inj_of_stop p.field.space_not_mem_expression
    q.field.space_not_mem_expression (space _) (space _) chars
  have field := Field.expression_injective _ _ (String.toList_inj.mp expressions)
  have behind := (List.cons.inj rests).2
  have words := congrArg (List.takeWhile fun c => c != ' ') behind
  rw [Operator.takeWhile_symbol, Operator.takeWhile_symbol] at words
  have operator := Operator.word_injective _ _ words
  rw [operator] at behind
  have operands := (List.cons.inj (List.append_cancel_left behind)).2
  unfold Proper at hp hq
  rw [← field, ← operator] at hq
  exact ⟨field, operator, hp.sameTexts hq operands⟩

/-- Proper tests with one text are alike. -/
theorem Predicate.alike_of_render_eq {p q : Predicate} (hp : p.Proper) (hq : q.Proper)
    (h : p.render = q.render) : p.Alike q := by
  obtain ⟨field, operator, texts⟩ := of_render_eq hp hq h
  unfold Proper at hp hq
  rw [← field, ← operator] at hq
  exact ⟨field, operator, texts.alike hp hq⟩

end Cohort
