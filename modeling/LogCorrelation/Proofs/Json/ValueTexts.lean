import LogCorrelation.Json.ValueTexts
import LogCorrelation.Proofs.Json.RoundTrip

/-!
# Proofs.Json.ValueTexts — the texts of values are found again

The text of a value is what the reader of values takes away, and that is known to be what was written of it.  So the items
of a list and the fields of an object are found one by one, each as it was written.

* `valueText_of_skip_eq`: the text of one value.
* `itemTexts_write`, `fieldTexts_write`: a whole list, a whole object.
-/

namespace LogCorrelation.Json

/-! ### One value -/

theorem Opens.skip_append {cs : List Char} (h : Opens cs) (rest : List Char) : skip (cs ++ rest) = cs ++ rest := by
  obtain ⟨c, cs, rfl, hblank, -⟩ := h
  exact skip_cons_of_not_isBlank hblank _

/-- The text of a value is what was written of it. -/
theorem valueText_of_skip_eq {cs rest : List Char} {depth : Nat} {j : Json} (hreals : ∀ x ∈ j.reals, ReadsBack x)
    (hrest : Ended rest) (h : skip cs = j.write depth ++ rest) : valueText cs = some (j.write depth, rest) := by
  have henough : 2 * (j.write depth).length ≤ 2 * (j.write depth ++ rest).length + 1 := by
    rw [List.length_append]
    omega
  have hread := readValue_write hreals hrest henough
  have hlength : (j.write depth ++ rest).length - rest.length = (j.write depth).length := by
    rw [List.length_append, Nat.add_sub_cancel]
  unfold valueText
  rw [h]
  dsimp only
  rw [hread, Option.map_some, hlength, List.take_left]

/-! ### Lists -/

theorem length_le_length_writeItems (depth : Nat) (items : List Json) :
    items.length ≤ (writeItems depth items).length := by
  induction items with
  | nil => exact Nat.zero_le _
  | cons item items ih =>
    simp only [writeItems, List.length_cons, List.length_append]
    omega

theorem itemTextsFrom_write {depth depth' fuel : Nat} {item : Json} {items : List Json}
    (hreals : ∀ x ∈ realsOfItems (item :: items), ReadsBack x) (hfuel : items.length < fuel) {cs : List Char}
    (hcs : skip cs = item.write depth ++ (writeItems depth items ++ (lineBreak depth' ++ [']']))) :
    itemTextsFrom fuel cs = some ((item :: items).map (write depth)) := by
  induction items generalizing item fuel cs with
  | nil =>
    obtain ⟨fuel, rfl⟩ : ∃ n, fuel = n + 1 := ⟨fuel - 1, by omega⟩
    have hitem : ∀ x ∈ item.reals, ReadsBack x := fun x hx => hreals x (List.mem_append_left _ hx)
    have hnone : writeItems depth [] = [] := by simp only [writeItems]
    rw [hnone, List.nil_append] at hcs
    rw [itemTextsFrom, valueText_of_skip_eq hitem (ended_lineBreak depth' _) hcs]
    dsimp only
    rw [skip_lineBreak]
    rfl
  | cons next items ih =>
    obtain ⟨fuel, rfl⟩ : ∃ n, fuel = n + 1 := ⟨fuel - 1, by omega⟩
    have hitem : ∀ x ∈ item.reals, ReadsBack x := fun x hx => hreals x (List.mem_append_left _ hx)
    have hrest : ∀ x ∈ realsOfItems (next :: items), ReadsBack x := fun x hx => hreals x (List.mem_append_right _ hx)
    have hnext : ∀ x ∈ next.reals, ReadsBack x := fun x hx => hrest x (List.mem_append_left _ hx)
    let behind := next.write depth ++ (writeItems depth items ++ (lineBreak depth' ++ [']']))
    have htail : writeItems depth (next :: items) ++ (lineBreak depth' ++ [']']) =
        ',' :: (lineBreak depth ++ behind) := by
      simp only [writeItems, behind, List.cons_append, List.append_assoc]
    have hskip : skip (lineBreak depth ++ behind) = behind := by
      rw [skip_lineBreak]
      exact (opens_write depth next hnext).skip_append _
    rw [itemTextsFrom, valueText_of_skip_eq hitem (ended_writeItems depth depth' _ _) hcs]
    dsimp only
    rw [htail, skip_cons_of_not_isBlank (by decide)]
    show (itemTextsFrom fuel (lineBreak depth ++ behind)).map _ = _
    rw [ih hrest (by simp only [List.length_cons] at hfuel; omega) hskip]
    rfl

/-- **The items of a list** are found as they were written. -/
theorem itemTexts_write {depth : Nat} {items : List Json} (hreals : ∀ x ∈ realsOfItems items, ReadsBack x) :
    itemTexts (write depth (.list items)) = some (items.map (write (depth + 1))) := by
  cases items with
  | nil => rfl
  | cons item items =>
    have hitem : ∀ x ∈ item.reals, ReadsBack x := fun x hx => hreals x (List.mem_append_left _ hx)
    have hopens := opens_write (depth + 1) item hitem
    let inner := item.write (depth + 1) ++ (writeItems (depth + 1) items ++ (lineBreak depth ++ [']']))
    have htext : write depth (.list (item :: items)) = '[' :: (lineBreak (depth + 1) ++ inner) := by
      simp only [write, inner, List.cons_append, List.append_assoc]
    have hinner : skip inner = inner := hopens.skip_append _
    have hskip : skip (lineBreak (depth + 1) ++ inner) = inner := (skip_lineBreak _ _).trans hinner
    have henough : items.length < inner.length := by
      have hitems := length_le_length_writeItems (depth + 1) items
      have hpos : 0 < (item.write (depth + 1)).length := List.length_pos_iff.mpr hopens.ne_nil
      simp only [inner, List.length_append]
      omega
    have hfirst : ∀ rest, inner ≠ ']' :: rest := by
      intro rest hrest
      obtain ⟨c, cs, hcs, -, hbracket, -⟩ := hopens
      simp only [inner, hcs, List.cons_append] at hrest
      exact hbracket (List.cons.inj hrest).1
    have hread := itemTextsFrom_write hreals henough hinner
    clear_value inner
    rw [htext, itemTexts, skip_cons_of_not_isBlank (by decide)]
    split
    · next rest h =>
      obtain rfl := (List.cons.inj h).2
      rw [hskip]
      split
      · next h => exact absurd rfl (hfirst _)
      · exact hread
    · next h => exact absurd rfl (h _)

/-! ### Objects -/

theorem length_le_length_writeFields (depth : Nat) (fields : List (String × Json)) :
    fields.length ≤ (writeFields depth fields).length := by
  induction fields with
  | nil => exact Nat.zero_le _
  | cons field fields ih =>
    simp only [writeFields, List.length_cons, List.length_append]
    omega

/-- What is written of a field up to its value is passed over. -/
theorem fieldTextsFrom_succ {fuel depth : Nat} {name : String} {value : Json} {cs rest : List Char}
    (hreals : ∀ x ∈ value.reals, ReadsBack x) (hrest : Ended rest)
    (hcs : skip cs = writeText name ++ ':' :: ' ' :: (value.write depth ++ rest)) :
    fieldTextsFrom (fuel + 1) cs =
      match skip rest with
      | '\x7d' :: rest => if rest.all isBlank then some [(name, value.write depth)] else none
      | ',' :: rest => (fieldTextsFrom fuel rest).map ((name, value.write depth) :: ·)
      | _ => none := by
  have hblank : skip (' ' :: (value.write depth ++ rest)) = value.write depth ++ rest :=
    (opens_write depth value hreals).skip_append rest
  have hvalue := valueText_of_skip_eq hreals hrest hblank
  have hname := readText_writeText name (':' :: ' ' :: (value.write depth ++ rest))
  rw [fieldTextsFrom, hcs, writeText, List.cons_append, List.cons_append]
  split
  · next text h =>
    obtain rfl := (List.cons.inj h).2
    rw [hname]
    dsimp only
    rw [skip_cons_of_not_isBlank (by decide)]
    split
    · next rest h =>
      obtain rfl := (List.cons.inj h).2
      rw [String.ofList_toList]
      generalize valueText (' ' :: (value.write depth ++ rest)) = found at hvalue ⊢
      subst hvalue
      rfl
    · next h => exact absurd rfl (h _)
  · next h => exact absurd rfl (h _)

theorem fieldTextsFrom_write {depth depth' fuel : Nat} {name : String} {value : Json} {fields : List (String × Json)}
    (hreals : ∀ x ∈ realsOfFields ((name, value) :: fields), ReadsBack x) (hfuel : fields.length < fuel)
    {cs : List Char} (hcs : skip cs = writeText name ++ ':' :: ' ' :: (value.write depth ++
      (writeFields depth fields ++ (lineBreak depth' ++ ['\x7d'])))) :
    fieldTextsFrom fuel cs = some (((name, value) :: fields).map fun field => (field.1, field.2.write depth)) := by
  induction fields generalizing name value fuel cs with
  | nil =>
    obtain ⟨fuel, rfl⟩ : ∃ n, fuel = n + 1 := ⟨fuel - 1, by omega⟩
    have hvalue : ∀ x ∈ value.reals, ReadsBack x := fun x hx => hreals x (List.mem_append_left _ hx)
    have hnone : writeFields depth [] = [] := by simp only [writeFields]
    rw [hnone, List.nil_append] at hcs
    rw [fieldTextsFrom_succ hvalue (ended_lineBreak depth' _) hcs, skip_lineBreak]
    rfl
  | cons field fields ih =>
    obtain ⟨fuel, rfl⟩ : ∃ n, fuel = n + 1 := ⟨fuel - 1, by omega⟩
    obtain ⟨name', value'⟩ := field
    have hvalue : ∀ x ∈ value.reals, ReadsBack x := fun x hx => hreals x (List.mem_append_left _ hx)
    have hrest : ∀ x ∈ realsOfFields ((name', value') :: fields), ReadsBack x :=
      fun x hx => hreals x (List.mem_append_right _ hx)
    let behind := writeText name' ++ ':' :: ' ' :: (value'.write depth ++
      (writeFields depth fields ++ (lineBreak depth' ++ ['\x7d'])))
    have htail : writeFields depth ((name', value') :: fields) ++ (lineBreak depth' ++ ['\x7d']) =
        ',' :: (lineBreak depth ++ behind) := by
      simp only [writeFields, behind, List.cons_append, List.append_assoc, List.nil_append]
    have hskip : skip (lineBreak depth ++ behind) = behind := by
      rw [skip_lineBreak]
      exact skip_cons_of_not_isBlank (by decide) _
    rw [fieldTextsFrom_succ hvalue (ended_writeFields depth depth' _ _) hcs, htail,
      skip_cons_of_not_isBlank (by decide)]
    show (fieldTextsFrom fuel (lineBreak depth ++ behind)).map _ = _
    rw [ih hrest (by simp only [List.length_cons] at hfuel; omega) hskip]
    rfl

/-- **The fields of an object** are found as they were written. -/
theorem fieldTexts_write {depth : Nat} {fields : List (String × Json)}
    (hreals : ∀ x ∈ realsOfFields fields, ReadsBack x) :
    fieldTexts (write depth (.object fields)) =
      some (fields.map fun field => (field.1, field.2.write (depth + 1))) := by
  match fields with
  | [] => rfl
  | (name, value) :: fields =>
    let inner := writeText name ++ ':' :: ' ' :: (value.write (depth + 1) ++
      (writeFields (depth + 1) fields ++ (lineBreak depth ++ ['\x7d'])))
    have htext : write depth (.object ((name, value) :: fields)) = '\x7b' :: (lineBreak (depth + 1) ++ inner) := by
      simp only [write, inner, List.cons_append, List.append_assoc, List.nil_append]
    have hinner : skip inner = inner := skip_cons_of_not_isBlank (by decide) _
    have hskip : skip (lineBreak (depth + 1) ++ inner) = inner := (skip_lineBreak _ _).trans hinner
    have henough : fields.length < inner.length := by
      have hfields := length_le_length_writeFields (depth + 1) fields
      simp only [inner, List.length_append, List.length_cons]
      omega
    have hfirst : ∀ rest, inner ≠ '\x7d' :: rest := fun rest hrest => absurd (List.cons.inj hrest).1 (by decide)
    have hread := fieldTextsFrom_write hreals henough hinner
    clear_value inner
    rw [htext, fieldTexts, skip_cons_of_not_isBlank (by decide)]
    split
    · next rest h =>
      obtain rfl := (List.cons.inj h).2
      rw [hskip]
      split
      · next h => exact absurd rfl (hfirst _)
      · exact hread
    · next h => exact absurd rfl (h _)

end LogCorrelation.Json
