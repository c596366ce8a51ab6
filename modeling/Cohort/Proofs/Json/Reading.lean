import Cohort.Proofs.Json.Doubles
import Cohort.Proofs.Json.Quoted

/-!
# Reading a rendered value again

The compact text of a value is read as the value, but for its doubles, which are read roughly. For
that the value must not be nested too deep, and the outline in which it is read must pass over none
of its members. The steps of the reader are bounded by the length of the text.

## Main definitions

* `Json.Legible` — the values whose text can be read in an outline
* `Json.reread?` — what the text of a value is read as

## Main results

* `Json.readValue?_chars` — the text of a legible value is read with its doubles read again
* `Json.parseOutline?_render` — so it is as a whole text
-/

namespace Cohort.Json

variable {o inner : Outline} {position depth fuel : Nat} {key : String} {j : Json}
  {items : List Json} {members : List (String × Json)} {cs after rest : List Char}
  {read? : Option Json} {items? : Option (List Json)} {members? : Option (List (String × Json))}

/-! ## Legible values -/

mutual

/-- The text of the value can be read in an outline where so many brackets may be open at once. -/
@[simp] def Legible (o : Outline) (depth : Nat) : Json → Prop
  | .null => True
  | .bool _ => True
  | .int i => Fits i
  | .float _ => True
  | .text _ => True
  | .list items => 0 < depth ∧ LegibleItems o 0 (depth - 1) items
  | .object members => 0 < depth ∧ LegibleMembers o (depth - 1) members
termination_by structural j => j

/-- The items from a position on can be read. -/
@[simp] def LegibleItems (o : Outline) (position depth : Nat) : List Json → Prop
  | [] => True
  | j :: rest => Legible (o.item position) depth j ∧ LegibleItems o (position + 1) depth rest
termination_by structural js => js

/-- The members can be read, and none of them is passed over. -/
@[simp] def LegibleMembers (o : Outline) (depth : Nat) : List (String × Json) → Prop
  | [] => True
  | (key, j) :: rest =>
    (∃ inner, o.member? key = some inner ∧ Legible inner depth j) ∧ LegibleMembers o depth rest
termination_by structural ms => ms

end

mutual

/-- What the text of a value is read as: doubles are read again, and nothing stands in place of
infinite and undefined ones. -/
@[simp] def reread? : Json → Option Json
  | .null => some .null
  | .bool b => some (.bool b)
  | .int i => some (.int i)
  | .float x => if Decimal.isFinite x then (rereadDouble? x).map .float else some .null
  | .text s => some (.text s)
  | .list items => (rereadItems? items).map .list
  | .object members => (rereadMembers? members).map .object
termination_by structural j => j

/-- What the items of a list are read as. -/
@[simp] def rereadItems? : List Json → Option (List Json)
  | [] => some []
  | j :: rest => (reread? j).bind fun k => (rereadItems? rest).map (k :: ·)
termination_by structural js => js

/-- What the members of an object are read as. -/
@[simp] def rereadMembers? : List (String × Json) → Option (List (String × Json))
  | [] => some []
  | (key, j) :: rest =>
    (reread? j).bind fun k => (rereadMembers? rest).map ((key, k) :: ·)
termination_by structural ms => ms

end

/-- The text goes on with a value: with no blank and no closing bracket. -/
def BeginsValue (cs : List Char) : Prop :=
  ∃ c more, cs = c :: more ∧ isSpace c = false ∧ c ≠ ']'

theorem BeginsValue.append (h : BeginsValue cs) (rest : List Char) : BeginsValue (cs ++ rest) := by
  obtain ⟨c, more, rfl, begins⟩ := h
  exact ⟨c, more ++ rest, rfl, begins⟩

theorem BeginsValue.length_pos (h : BeginsValue cs) : 0 < cs.length := by
  obtain ⟨c, more, rfl, -⟩ := h
  exact Nat.succ_pos _

theorem BeginsValue.skipSpace (h : BeginsValue cs) : Json.skipSpace cs = cs := by
  obtain ⟨c, more, rfl, visible, -⟩ := h
  simp [Json.skipSpace, visible]

theorem BeginsNumber.beginsValue (h : BeginsNumber cs) : BeginsValue cs := by
  obtain ⟨c, more, rfl, begins⟩ := h
  refine ⟨c, more, rfl, ?_⟩
  rcases begins with digit | rfl
  · constructor
    · by_contra blank
      simp only [isSpace, Bool.not_eq_false, Bool.or_eq_true, beq_iff_eq] at blank
      rcases blank with ((rfl | rfl) | rfl) | rfl <;> exact absurd digit (by decide)
    · rintro rfl
      exact absurd digit (by decide)
  · decide

theorem beginsNumber_writeJson {x : Float} (finite : Decimal.isFinite x = true) :
    BeginsNumber (Decimal.writeJson x).toList := by
  obtain ⟨n, spanned, -⟩ := spanNumber?_writeJson finite
  exact beginsNumber_of_spanNumber? spanned

theorem beginsValue_chars (h : Legible o depth j) : BeginsValue (chars j) := by
  cases j with
  | null | text | list | object => exact ⟨_, _, rfl, by decide⟩
  | bool b => cases b <;> exact ⟨_, _, rfl, by decide⟩
  | int i =>
    have read := readNumber?_int h endsValue_nil
    rw [List.append_nil] at read
    exact (beginsNumber_of_readNumber? read).beginsValue
  | float x =>
    cases finite : Decimal.isFinite x with
    | true => exact (beginsNumber_writeJson finite).beginsValue
    | false =>
      rw [chars, writeJson_of_not_finite finite]
      exact ⟨_, _, rfl, by decide⟩

/-! ## The steps of the reader -/

theorem BeginsNumber.append (h : BeginsNumber cs) (rest : List Char) :
    BeginsNumber (cs ++ rest) := by
  obtain ⟨c, more, rfl, begins⟩ := h
  exact ⟨c, more ++ rest, rfl, begins⟩

theorem readValue?_number (begins : BeginsNumber cs) :
    readValue? o depth (fuel + 1) cs = readNumber? cs := by
  rw [readValue?, begins.beginsValue.skipSpace]
  obtain ⟨c, more, rfl, begins⟩ := begins
  -- No other value begins like a number.
  have other : ∀ d : Char, d.isDigit = false → d ≠ '-' → c ≠ d := by
    rintro d no_digit no_minus rfl
    rcases begins with digit | minus
    · rw [no_digit] at digit
      cases digit
    · exact no_minus minus
  split
  case h_7 => rfl
  all_goals
    next same =>
    exact absurd (List.cons.inj same).1 (other _ (by decide) (by decide))

theorem readValue?_double (x : Float) (ends : EndsValue rest) :
    readValue? o depth (fuel + 1) ((Decimal.writeJson x).toList ++ rest) =
      (reread? (.float x)).map fun j => (j, rest) := by
  rw [reread?]
  cases finite : Decimal.isFinite x with
  | true =>
    rw [readValue?_number ((beginsNumber_writeJson finite).append rest),
      readNumber?_writeJson finite ends, if_pos rfl, Option.map_map]
    rfl
  | false =>
    rw [writeJson_of_not_finite finite]
    rfl

theorem readValue?_text (s : String) :
    readValue? o depth (fuel + 1) (renderText s ++ rest) = some (.text s, rest) := by
  have body : renderText s ++ rest = '"' :: (s.toList.flatMap escape ++ '"' :: rest) := by
    simp [renderText]
  have visible : skipSpace ('"' :: (s.toList.flatMap escape ++ '"' :: rest)) =
      '"' :: (s.toList.flatMap escape ++ '"' :: rest) := by simp [skipSpace, isSpace]
  rw [body, readValue?, visible]
  simp only [readText?_body, Option.map_some, String.ofList_toList]

theorem readValue?_list (begins : BeginsValue cs) :
    readValue? o (depth + 2) (fuel + 1) ('[' :: cs) =
      (readItems? o 0 (depth + 1) fuel cs).map fun (items, r) => (.list items, r) := by
  have visible : skipSpace ('[' :: cs) = '[' :: cs := by simp [skipSpace, isSpace]
  have deep : ¬ depth + 2 ≤ 1 := by omega
  have inside : depth + 2 - 1 = depth + 1 := rfl
  rw [readValue?, visible]
  simp only [if_neg deep, begins.skipSpace, inside]
  obtain ⟨c, more, rfl, -, no_bracket⟩ := begins
  split
  · next same => exact absurd (List.cons.inj same).1 no_bracket
  · rfl

theorem readItems?_last
    (h : readValue? (o.item position) depth fuel cs = read?.map fun j => (j, ']' :: rest)) :
    readItems? o position depth (fuel + 1) cs = read?.map fun j => ([j], rest) := by
  rw [readItems?, h]
  cases read? <;> rfl

theorem readItems?_more
    (h : readValue? (o.item position) depth fuel cs = read?.map fun j => (j, ',' :: after))
    (more : readItems? o (position + 1) depth fuel after =
      items?.map fun items => (items, rest)) :
    readItems? o position depth (fuel + 1) cs =
      (read?.bind fun j => items?.map (j :: ·)).map fun items => (items, rest) := by
  have comma : skipSpace (',' :: after) = ',' :: after := by simp [skipSpace, isSpace]
  rw [readItems?, h]
  cases read? with
  | none => rfl
  | some j =>
    simp only [Option.map_some, comma, more, Option.bind_some]
    cases items? <;> rfl

theorem readValue?_object :
    readValue? o (depth + 2) (fuel + 1) ('\x7b' :: '"' :: cs) =
      (readMembers? o (depth + 1) fuel ('"' :: cs)).map fun (ms, r) => (.object ms, r) := by
  have visible : skipSpace ('\x7b' :: '"' :: cs) = '\x7b' :: '"' :: cs := by
    simp [skipSpace, isSpace]
  have quote : skipSpace ('"' :: cs) = '"' :: cs := by simp [skipSpace, isSpace]
  have deep : ¬ depth + 2 ≤ 1 := by omega
  have inside : depth + 2 - 1 = depth + 1 := rfl
  rw [readValue?, visible]
  simp only [if_neg deep, quote, inside]
  rfl

/-- A member that is not passed over is read with its key. -/
theorem readMembers?_member (kept : o.member? key = some inner)
    (h : readValue? inner depth fuel cs = read?.map fun j => (j, after)) :
    readMembers? o depth (fuel + 2) (renderText key ++ ':' :: cs) =
      read?.bind fun j =>
        match skipSpace after with
        | '\x7d' :: after => some ([(key, j)], after)
        | ',' :: after =>
          (readMembers? o depth (fuel + 1) after).map fun (ms, r) => ((key, j) :: ms, r)
        | _ => none := by
  have body : renderText key ++ ':' :: cs =
      '"' :: (key.toList.flatMap escape ++ '"' :: ':' :: cs) := by simp [renderText]
  have visible : ∀ cs, skipSpace ('"' :: cs) = '"' :: cs := by simp [skipSpace, isSpace]
  have colon : skipSpace (':' :: cs) = ':' :: cs := by simp [skipSpace, isSpace]
  rw [body, readMembers?, visible]
  simp only [readText?_body, colon, String.ofList_toList, readMember?, kept, h]
  cases read? <;> rfl

theorem readMembers?_last (kept : o.member? key = some inner)
    (h : readValue? inner depth fuel cs = read?.map fun j => (j, '\x7d' :: rest)) :
    readMembers? o depth (fuel + 2) (renderText key ++ ':' :: cs) =
      read?.map fun j => ([(key, j)], rest) := by
  rw [readMembers?_member kept h]
  cases read? <;> rfl

theorem readMembers?_more (kept : o.member? key = some inner)
    (h : readValue? inner depth fuel cs = read?.map fun j => (j, ',' :: after))
    (more : readMembers? o depth (fuel + 1) after =
      members?.map fun members => (members, rest)) :
    readMembers? o depth (fuel + 2) (renderText key ++ ':' :: cs) =
      (read?.bind fun j => members?.map ((key, j) :: ·)).map fun members => (members, rest) := by
  have comma : skipSpace (',' :: after) = ',' :: after := by simp [skipSpace, isSpace]
  rw [readMembers?_member kept h, comma]
  simp only [more]
  cases read? with
  | none => rfl
  | some j => cases members? <;> rfl

/-! ## Reading again -/

/-- What follows an item of a list that is not the last one. -/
theorem endsValue_comma (cs : List Char) : EndsValue (',' :: cs) := endsValue_cons (.inl rfl)

mutual

/-- The text of a legible value is read as the value with its doubles read again. -/
theorem readValue?_chars (o : Outline) (depth fuel : Nat) (j : Json) (rest : List Char)
    (legible : Legible o depth j) (ends : EndsValue rest) (enough : (chars j).length ≤ fuel) :
    readValue? o (depth + 1) fuel (chars j ++ rest) = (reread? j).map fun k => (k, rest) := by
  -- Every value has at least one character, so there is a step for it.
  obtain ⟨fuel, rfl⟩ := Nat.exists_eq_succ_of_ne_zero
    ((beginsValue_chars legible).length_pos.trans_le enough).ne'
  cases j with
  | null => rfl
  | bool b => cases b <;> rfl
  | int i =>
    have read := readNumber?_int legible ends
    rw [chars, readValue?_number (beginsNumber_of_readNumber? read), read]
    rfl
  | float x => exact readValue?_double x ends
  | text s => exact readValue?_text s
  | list items =>
    obtain ⟨depth, rfl⟩ := Nat.exists_eq_succ_of_ne_zero legible.1.ne'
    cases items with
    | nil => rfl
    | cons j items =>
      have inside := legible.2
      have read := readItems?_chars o 0 depth fuel (j :: items) rest inside (List.cons_ne_nil _ _)
        (by simp [chars] at enough; omega)
      have begins : BeginsValue (itemChars (j :: items)) := by
        cases items with
        | nil => exact beginsValue_chars inside.1
        | cons => exact (beginsValue_chars inside.1).append _
      rw [chars, List.cons_append, List.cons_append, List.append_assoc,
        readValue?_list (begins.append _), read, reread?, Option.map_map, Option.map_map]
      rfl
  | object members =>
    obtain ⟨depth, rfl⟩ := Nat.exists_eq_succ_of_ne_zero legible.1.ne'
    cases members with
    | nil => rfl
    | cons m members =>
      have read := readMembers?_chars o depth fuel (m :: members) rest legible.2
        (List.cons_ne_nil _ _) (by simp [chars] at enough; omega)
      have quoted : ∃ cs, memberChars (m :: members) = '"' :: cs := by
        cases members <;> exact ⟨_, rfl⟩
      obtain ⟨cs, hcs⟩ := quoted
      rw [hcs] at read
      rw [chars, hcs, List.cons_append, List.cons_append, List.append_assoc, List.cons_append,
        readValue?_object]
      rw [List.cons_append] at read
      rw [read, reread?, Option.map_map, Option.map_map]
      rfl
termination_by structural j

/-- The text of a list without its opening bracket is read as the items. -/
theorem readItems?_chars (o : Outline) (position depth fuel : Nat) (items : List Json)
    (rest : List Char) (legible : LegibleItems o position depth items) (some_item : items ≠ [])
    (enough : (itemChars items).length < fuel) :
    readItems? o position (depth + 1) fuel (itemChars items ++ ([']'] ++ rest)) =
      (rereadItems? items).map fun items => (items, rest) := by
  obtain ⟨fuel, rfl⟩ := Nat.exists_eq_succ_of_ne_zero (Nat.zero_lt_of_lt enough).ne'
  cases items with
  | nil => exact absurd rfl some_item
  | cons j items =>
    cases items with
    | nil =>
      refine (readItems?_last (readValue?_chars _ _ _ j _ legible.1 (endsValue_cons (by simp))
        (by simp [itemChars] at enough; omega))).trans ?_
      rw [rereadItems?, rereadItems?]
      cases reread? j <;> rfl
    | cons k items =>
      rw [itemChars, List.append_assoc, List.cons_append, rereadItems?]
      refine readItems?_more (readValue?_chars _ _ _ j _ legible.1 (endsValue_comma _)
        (by simp [itemChars] at enough; omega)) ?_
      exact readItems?_chars o (position + 1) depth fuel (k :: items) rest legible.2
        (List.cons_ne_nil _ _) (by simp [itemChars] at enough; omega)
termination_by structural items

/-- The text of an object without its opening brace is read as the members. -/
theorem readMembers?_chars (o : Outline) (depth fuel : Nat) (members : List (String × Json))
    (rest : List Char) (legible : LegibleMembers o depth members) (some_member : members ≠ [])
    (enough : (memberChars members).length < fuel) :
    readMembers? o (depth + 1) fuel (memberChars members ++ (['\x7d'] ++ rest)) =
      (rereadMembers? members).map fun members => (members, rest) := by
  cases members with
  | nil => exact absurd rfl some_member
  | cons m members =>
    obtain ⟨key, j⟩ := m
    obtain ⟨inner, kept, within⟩ := legible.1
    cases members with
    | nil =>
      rw [memberChars] at enough ⊢
      rw [List.append_assoc, List.cons_append]
      simp only [renderText, List.length_append, List.length_cons] at enough
      obtain ⟨fuel, rfl⟩ := Nat.exists_eq_add_of_le' (show 2 ≤ fuel by omega)
      refine (readMembers?_last kept (readValue?_chars _ _ _ j _ within (endsValue_cons (by simp))
        (by omega))).trans ?_
      rw [rereadMembers?, rereadMembers?]
      cases reread? j <;> rfl
    | cons m members =>
      rw [memberChars] at enough ⊢
      rw [List.append_assoc, List.append_assoc, List.cons_append, List.cons_append,
        rereadMembers?]
      simp only [renderText, List.length_append, List.length_cons] at enough
      obtain ⟨fuel, rfl⟩ := Nat.exists_eq_add_of_le' (show 2 ≤ fuel by omega)
      refine readMembers?_more kept (readValue?_chars _ _ _ j _ within (endsValue_comma _)
        (by omega)) ?_
      exact readMembers?_chars o depth (fuel + 1) (m :: members) rest legible.2
        (List.cons_ne_nil _ _) (by omega)
termination_by structural members

end

/-- The text of a legible value is read with its doubles read again. -/
theorem parseOutline?_render (legible : Legible o 127 j) :
    parseOutline? o j.render = reread? j := by
  have read := readValue?_chars o 127 (3 * (chars j).length + 3) j [] legible endsValue_nil
    (by omega)
  rw [List.append_nil] at read
  unfold parseOutline? render
  rw [String.toList_ofList]
  simp only [read]
  cases reread? j <;> rfl

/-! ## Values that are written alike -/

variable {α : Type} {write : α → Json} {as : List α}

/-- Items that are all written alike and read in the same outline. -/
theorem legibleItems_map (inner : Outline) (same : ∀ position, o.item position = inner)
    (h : ∀ a ∈ as, Legible inner depth (write a)) :
    LegibleItems o position depth (as.map write) := by
  induction as generalizing position with
  | nil => trivial
  | cons a as ih =>
    refine ⟨?_, ih fun b hb => h b (List.mem_cons_of_mem _ hb)⟩
    rw [same]
    exact h a List.mem_cons_self

end Cohort.Json
