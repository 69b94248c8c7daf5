import LogCorrelation.Json.Reader
import LogCorrelation.Proofs.Decimal.Characters

/-!
# Proofs.Json.RoundTrip — JSON text is read back as the value it was written for

What is written of a value is read back whatever stands behind it, as long as a number cannot run on; so the parts of
lists and objects are read one by one.

* `readText_writeText`: every text, through its escapes.
* `readValue_write`: every value, with one case for each kind.
* `read_pretty`: whole texts, if the reals in them are read back.
-/

namespace LogCorrelation.Json

/-! ### Text -/

theorem hexValue?_digitChar {n : Nat} (h : n < 16) : Text.hexValue? (Nat.digitChar n) = some n := by
  have hall : ∀ m : Fin 16, Text.hexValue? (Nat.digitChar m) = some m.val := by decide
  exact hall ⟨n, h⟩

theorem unit?_control {n : Nat} (h : n < 32) :
    unit? '0' '0' (Nat.digitChar (n / 16)) (Nat.digitChar (n % 16)) = some n := by
  have hhigh := hexValue?_digitChar (n := n / 16) (by omega)
  have hlow := hexValue?_digitChar (n := n % 16) (by omega)
  have hzero : Text.hexValue? '0' = some 0 := by decide
  simp only [unit?, hhigh, hlow, hzero, bind_pure_comp, Option.bind_eq_bind, Option.bind_some, Option.map_eq_map,
    Option.map_some]
  rw [Option.some.injEq]
  omega

theorem readText_unit {a b c d : Char} {unit : Nat} (h : unit? a b c d = some unit) (hlow : isHigh unit = false)
    (rest : List Char) :
    readText none ('\\' :: 'u' :: a :: b :: c :: d :: rest) = andThen (Text.character? unit) (readText none rest) := by
  rw [readText.eq_def]
  simp only [h, hlow, Bool.false_eq_true, if_false]

theorem readText_plain {c : Char} (hquote : c ≠ '"') (hslash : c ≠ '\\') (hcontrol : ¬ c.toNat < 0x20)
    (rest : List Char) : readText none (c :: rest) = andThen (some c) (readText none rest) := by
  rw [readText]
  · rw [if_neg (by simp [hslash, hcontrol])]
  · exact fun _ _ _ _ _ h => absurd h hslash
  · exact hquote
  · exact fun _ _ h => absurd h hslash

/-- An escaped character is read as that character. -/
theorem readText_escape (c : Char) (rest : List Char) :
    readText none (escape c ++ rest) = andThen (some c) (readText none rest) := by
  unfold escape
  split
  · next h => rw [h]; rfl
  split
  · next h => rw [h]; rfl
  split
  · next h => rw [h]; rfl
  split
  · next h => rw [h]; rfl
  split
  · next h => rw [h]; rfl
  split
  · next h => rw [h]; rfl
  split
  · next h => rw [h]; rfl
  split
  · next hcontrol =>
    have hlow : isHigh c.toNat = false := by
      unfold isHigh
      simp only [Bool.and_eq_false_iff, decide_eq_false_iff_not]
      omega
    show readText none ('\\' :: 'u' :: '0' :: '0' :: _ :: _ :: rest) = _
    rw [readText_unit (unit?_control hcontrol) hlow, Text.character?_toNat]
  · next hquote hslash _ _ _ _ _ hcontrol => exact readText_plain hquote hslash hcontrol rest

/-- A text is read up to the quote that closes it. -/
theorem readText_flatMap_escape (cs rest : List Char) :
    readText none (cs.flatMap escape ++ '"' :: rest) = some (cs, rest) := by
  induction cs with
  | nil => rfl
  | cons c cs ih =>
    rw [List.flatMap_cons, List.append_assoc, readText_escape, ih]
    rfl

theorem readText_writeText (s : String) (rest : List Char) :
    readText none (s.toList.flatMap escape ++ ['"'] ++ rest) = some (s.toList, rest) := by
  rw [List.append_assoc]
  exact readText_flatMap_escape s.toList rest

/-! ### Blanks -/

theorem skip_lineBreak (depth : Nat) (cs : List Char) : skip (lineBreak depth ++ cs) = skip cs := by
  have hblank : ∀ c ∈ lineBreak depth, isBlank c = true := by
    intro c hc
    obtain rfl | hc := List.mem_cons.mp hc
    · rfl
    · rw [(List.mem_replicate.mp hc).2]
      rfl
  exact List.dropWhile_append_of_pos hblank

theorem skip_cons_of_not_isBlank {c : Char} (h : isBlank c = false) (cs : List Char) : skip (c :: cs) = c :: cs :=
  List.dropWhile_cons_of_neg (by simp [h])

/-- Blanks in front of a value are passed over. -/
theorem readValue_of_skip_eq {cs cs' : List Char} (h : skip cs = skip cs') (fuel : Nat) :
    readValue fuel cs = readValue fuel cs' := by
  cases fuel with
  | zero => rw [readValue, readValue]
  | succ fuel => rw [readValue, readValue, h]

theorem readItems_of_skip_eq {cs cs' : List Char} (h : skip cs = skip cs') (fuel : Nat) :
    readItems fuel cs = readItems fuel cs' := by
  cases fuel with
  | zero => rw [readItems, readItems]
  | succ fuel => rw [readItems, readItems, readValue_of_skip_eq h]

theorem readFields_of_skip_eq {cs cs' : List Char} (h : skip cs = skip cs') (fuel : Nat) :
    readFields fuel cs = readFields fuel cs' := by
  cases fuel with
  | zero => rw [readFields, readFields]
  | succ fuel => rw [readFields, readFields, h]

/-! ### Numbers -/

/-- A rest at which no number can run on. -/
def Ended (rest : List Char) : Prop := ∀ c ∈ rest.head?, isNumeral c = false

/-- A real that its text is read back as. -/
def ReadsBack (x : Float) : Prop := number? (realLayout.text x).toList = some (.real x)

theorem wholeAllowed_digits (n : Nat) : wholeAllowed (Decimal.digits n) = true := by
  cases n with
  | zero => rfl
  | succ n =>
    obtain ⟨d, ds, hds⟩ := List.exists_cons_of_ne_nil (Decimal.digits_ne_nil (n + 1))
    have hhead := Decimal.head?_digits (Nat.succ_pos n)
    rw [hds] at hhead ⊢
    unfold wholeAllowed
    split
    · next h => exact absurd h (by simp)
    · next h => exact absurd (congrArg List.head? h) hhead
    · rfl

theorem isNumeral_of_mem_digits {n : Nat} {c : Char} (h : c ∈ Decimal.digits n) : isNumeral c = true := by
  unfold isNumeral
  rw [Decimal.isDigit_of_mem_digits h]
  rfl

theorem number?_digits (n : Nat) : number? (Decimal.digits n) = some (.count n) := by
  have hdigits : (Decimal.digits n).all Char.isDigit = true :=
    List.all_eq_true.mpr fun c hc => Decimal.isDigit_of_mem_digits hc
  rw [number?, if_pos ⟨hdigits, wholeAllowed_digits n⟩, Decimal.value_digits]

/-- What is no finite number is written as null, and null is no number. -/
theorem ReadsBack.isFinite {x : Float} (h : ReadsBack x) : x.isFinite = true := by
  have hnull : number? "null".toList = none := by decide
  unfold ReadsBack Decimal.Layout.text at h
  show x.toModel.unpack.isFinite = true
  cases hunpack : x.toModel.unpack with
  | notANumber =>
    rw [hunpack] at h
    exact absurd (hnull.symm.trans h) (by simp)
  | infinity sign =>
    rw [hunpack] at h
    cases sign with
    | positive => exact absurd (hnull.symm.trans h) (by simp)
    | negative => exact absurd (hnull.symm.trans h) (by simp)
  | zero sign => rfl
  | finite sign mantissa exponent hpos => rfl

theorem isNumeral_of_mem_text {x : Float} (hx : x.isFinite = true) {c : Char} (h : c ∈ (realLayout.text x).toList) :
    isNumeral c = true := by
  unfold isNumeral
  obtain hdigit | rfl | hmark | rfl | rfl := Decimal.mem_text_of_isFinite realLayout hx h
  · rw [hdigit]
    rfl
  · rfl
  · have hcases : c = 'e' ∨ c = '+' := by
      have hlist : realLayout.mark.toList = ['e', '+'] := rfl
      rw [hlist] at hmark
      simpa using hmark
    obtain rfl | rfl := hcases <;> rfl
  · rfl
  · rfl

theorem isBlank_of_isNumeral {c : Char} (h : isNumeral c = true) : isBlank c = false := by
  cases hc : isBlank c with
  | false => rfl
  | true =>
    simp only [isBlank, Bool.or_eq_true, beq_iff_eq] at hc
    obtain ((rfl | rfl) | rfl) | rfl := hc <;> exact absurd h (by decide)

/-- No character of numbers opens or closes another value. -/
theorem not_mem_of_isNumeral {c : Char} (h : isNumeral c = true) :
    c ∉ ['n', 't', 'f', '"', '[', ']', '\x7b', '\x7d'] := by
  intro hmem
  have hall : ['n', 't', 'f', '"', '[', ']', '\x7b', '\x7d'].all (!isNumeral ·) = true := rfl
  have hc := List.all_eq_true.mp hall c hmem
  rw [h] at hc
  exact absurd hc (by decide)

theorem number?_nil : number? [] = none := rfl

theorem takeWhile_append_of_ended {cs rest : List Char} (hcs : ∀ c ∈ cs, isNumeral c = true) (hrest : Ended rest) :
    (cs ++ rest).takeWhile isNumeral = cs ∧ (cs ++ rest).dropWhile isNumeral = rest := by
  rw [List.takeWhile_append_of_pos hcs, List.dropWhile_append_of_pos hcs]
  cases rest with
  | nil => exact ⟨List.append_nil cs, rfl⟩
  | cons c rest =>
    have hc : ¬ isNumeral c = true := by simp [hrest c rfl]
    rw [List.takeWhile_cons_of_neg hc, List.dropWhile_cons_of_neg hc]
    exact ⟨List.append_nil cs, rfl⟩

/-- No value but a number begins with a character of numbers. -/
theorem readValue_of_number? {cs rest : List Char} {j : Json} (hcs : ∀ c ∈ cs, isNumeral c = true)
    (hj : number? cs = some j) (hrest : Ended rest) (fuel : Nat) :
    readValue (fuel + 1) (cs ++ rest) = some (j, rest) := by
  obtain ⟨htake, hdrop⟩ := takeWhile_append_of_ended hcs hrest
  cases cs with
  | nil => exact absurd (number?_nil.symm.trans hj) (by simp)
  | cons c cs =>
    have hc := hcs c List.mem_cons_self
    have hother := not_mem_of_isNumeral hc
    simp only [List.mem_cons, List.not_mem_nil, or_false, not_or] at hother
    obtain ⟨hn, ht, hf, hquote, hbracket, -, hbrace, -⟩ := hother
    have hskip : skip (c :: cs ++ rest) = c :: cs ++ rest := skip_cons_of_not_isBlank (isBlank_of_isNumeral hc) _
    rw [readValue, hskip]
    split
    · next h => exact absurd (List.cons.inj h).1 hn
    · next h => exact absurd (List.cons.inj h).1 ht
    · next h => exact absurd (List.cons.inj h).1 hf
    · next h => exact absurd (List.cons.inj h).1 hquote
    · next h => exact absurd (List.cons.inj h).1 hbracket
    · next h => exact absurd (List.cons.inj h).1 hbrace
    · rw [htake, hdrop, hj]
      rfl

/-! ### Values -/

mutual

/-- The reals in a value. -/
def reals : Json → List Float
  | .real x => [x]
  | .list items => realsOfItems items
  | .object fields => realsOfFields fields
  | _ => []

/-- The reals in the items of a list. -/
def realsOfItems : List Json → List Float
  | [] => []
  | item :: rest => reals item ++ realsOfItems rest

/-- The reals in the fields of an object. -/
def realsOfFields : List (String × Json) → List Float
  | [] => []
  | (_, value) :: rest => reals value ++ realsOfFields rest

end

/-- What is written of a value begins with a character that is no blank and closes neither a list nor an object. -/
def Opens (cs : List Char) : Prop := ∃ c rest, cs = c :: rest ∧ isBlank c = false ∧ c ≠ ']' ∧ c ≠ '\x7d'

theorem opens_of_number? {cs : List Char} {j : Json} (hcs : ∀ c ∈ cs, isNumeral c = true) (hj : number? cs = some j) :
    Opens cs := by
  cases cs with
  | nil => exact absurd (number?_nil.symm.trans hj) (by simp)
  | cons c rest =>
    have hc := hcs c List.mem_cons_self
    have hother := not_mem_of_isNumeral hc
    simp only [List.mem_cons, List.not_mem_nil, or_false, not_or] at hother
    obtain ⟨-, -, -, -, -, hbracket, -, hbrace⟩ := hother
    exact ⟨c, rest, rfl, isBlank_of_isNumeral hc, hbracket, hbrace⟩

theorem opens_write (depth : Nat) (j : Json) (hreals : ∀ x ∈ j.reals, ReadsBack x) : Opens (j.write depth) := by
  unfold write
  split
  · exact ⟨'n', _, rfl, by decide⟩
  · exact ⟨'t', _, rfl, by decide⟩
  · exact ⟨'f', _, rfl, by decide⟩
  · exact opens_of_number? (fun c hc => isNumeral_of_mem_digits hc) (number?_digits _)
  · next x =>
    have hx : ReadsBack x := hreals x (List.mem_singleton.mpr rfl)
    exact opens_of_number? (fun c hc => isNumeral_of_mem_text hx.isFinite hc) hx
  · exact ⟨'"', _, rfl, by decide⟩
  · exact ⟨'[', _, rfl, by decide⟩
  · exact ⟨'[', _, rfl, by decide⟩
  · exact ⟨'\x7b', _, rfl, by decide⟩
  · exact ⟨'\x7b', _, rfl, by decide⟩

theorem ended_lineBreak (depth : Nat) (cs : List Char) : Ended (lineBreak depth ++ cs) := by
  intro c hc
  obtain rfl : '\n' = c := Option.some.inj hc
  rfl

theorem ended_writeItems (depth depth' : Nat) (items : List Json) (cs : List Char) :
    Ended (writeItems depth items ++ (lineBreak depth' ++ cs)) := by
  cases items with
  | nil => exact ended_lineBreak depth' cs
  | cons item items =>
    intro c hc
    obtain rfl : ',' = c := Option.some.inj hc
    rfl

theorem ended_writeFields (depth depth' : Nat) (fields : List (String × Json)) (cs : List Char) :
    Ended (writeFields depth fields ++ (lineBreak depth' ++ cs)) := by
  cases fields with
  | nil => exact ended_lineBreak depth' cs
  | cons field fields =>
    intro c hc
    obtain rfl : ',' = c := Option.some.inj hc
    rfl

theorem readValue_list {cs cs' rest : List Char} {items : List Json} {fuel depth : Nat} (hopens : Opens cs)
    (hitems : readItems fuel (cs ++ cs') = some (items, rest)) :
    readValue (fuel + 1) ('[' :: (lineBreak depth ++ (cs ++ cs'))) = some (.list items, rest) := by
  obtain ⟨c, cs, rfl, hblank, hbracket, -⟩ := hopens
  have hskip : skip (lineBreak depth ++ (c :: cs ++ cs')) = c :: cs ++ cs' := by
    rw [skip_lineBreak]
    exact skip_cons_of_not_isBlank hblank _
  rw [readValue, skip_cons_of_not_isBlank (by decide)]
  split
  · next h => exact absurd h (by simp)
  · next h => exact absurd h (by simp)
  · next h => exact absurd h (by simp)
  · next h => exact absurd h (by simp)
  · next text h =>
    obtain rfl := (List.cons.inj h).2
    rw [hskip]
    split
    · next hend => exact absurd (List.cons.inj hend).1 hbracket
    · rw [hitems, Option.map_some]
  · next h => exact absurd h (by simp)
  · next h _ => exact absurd rfl (h _)

theorem readValue_object {cs rest : List Char} {fields : List (String × Json)} {fuel depth : Nat}
    (hfields : readFields fuel ('"' :: cs) = some (fields, rest)) :
    readValue (fuel + 1) ('\x7b' :: (lineBreak depth ++ '"' :: cs)) = some (.object fields, rest) := by
  have hskip : skip (lineBreak depth ++ '"' :: cs) = '"' :: cs := by
    rw [skip_lineBreak]
    exact skip_cons_of_not_isBlank (by decide) _
  rw [readValue, skip_cons_of_not_isBlank (by decide)]
  split
  · next h => exact absurd h (by simp)
  · next h => exact absurd h (by simp)
  · next h => exact absurd h (by simp)
  · next h => exact absurd h (by simp)
  · next h => exact absurd h (by simp)
  · next text h =>
    obtain rfl := (List.cons.inj h).2
    rw [hskip]
    split
    · next hend => exact absurd hend (by simp)
    · rw [hfields, Option.map_some]
  · next h => exact absurd rfl (h _)

theorem readItems_last {cs rest : List Char} {item : Json} {fuel depth : Nat}
    (hitem : readValue fuel cs = some (item, lineBreak depth ++ ']' :: rest)) :
    readItems (fuel + 1) cs = some ([item], rest) := by
  rw [readItems, hitem]
  dsimp only
  rw [skip_lineBreak, skip_cons_of_not_isBlank (by decide)]
  rfl

theorem readItems_next {cs cs' rest : List Char} {item : Json} {items : List Json} {fuel : Nat}
    (hitem : readValue fuel cs = some (item, ',' :: cs')) (hitems : readItems fuel cs' = some (items, rest)) :
    readItems (fuel + 1) cs = some (item :: items, rest) := by
  rw [readItems, hitem]
  show (readItems fuel cs').map _ = _
  rw [hitems]
  rfl

/-- A field is read as far as its value; what stands behind decides whether another one follows. -/
theorem readFields_value {cs after : List Char} {name : String} {value : Json} {fuel : Nat}
    (hvalue : readValue fuel cs = some (value, after)) :
    readFields (fuel + 1) (writeText name ++ ':' :: ' ' :: cs) =
      match skip after with
      | '\x7d' :: rest => some ([(name, value)], rest)
      | ',' :: rest => (readFields fuel rest).map fun (fields, rest) => ((name, value) :: fields, rest)
      | _ => none := by
  have hblank : skip (' ' :: cs) = skip cs := rfl
  have hspace : readValue fuel (' ' :: cs) = some (value, after) := (readValue_of_skip_eq hblank fuel).trans hvalue
  have hname := readText_writeText name (':' :: ' ' :: cs)
  rw [readFields, writeText, List.cons_append, List.cons_append, skip_cons_of_not_isBlank (by decide)]
  split
  · next text h =>
    obtain rfl := (List.cons.inj h).2
    rw [hname]
    dsimp only
    rw [skip_cons_of_not_isBlank (by decide)]
    split
    · next rest h =>
      obtain rfl := (List.cons.inj h).2
      rw [String.ofList_toList]
      generalize readValue fuel (' ' :: cs) = found at hspace ⊢
      subst hspace
      rfl
    · next h => exact absurd rfl (h _)
  · next h => exact absurd rfl (h _)

theorem readFields_last {cs rest : List Char} {name : String} {value : Json} {fuel depth : Nat}
    (hvalue : readValue fuel cs = some (value, lineBreak depth ++ '\x7d' :: rest)) :
    readFields (fuel + 1) (writeText name ++ ':' :: ' ' :: cs) = some ([(name, value)], rest) := by
  rw [readFields_value hvalue, skip_lineBreak]
  rfl

theorem readFields_next {cs cs' rest : List Char} {name : String} {value : Json} {fields : List (String × Json)}
    {fuel : Nat} (hvalue : readValue fuel cs = some (value, ',' :: cs'))
    (hfields : readFields fuel cs' = some (fields, rest)) :
    readFields (fuel + 1) (writeText name ++ ':' :: ' ' :: cs) = some ((name, value) :: fields, rest) := by
  rw [readFields_value hvalue]
  show (readFields fuel cs').map _ = _
  rw [hfields]
  rfl

/-- A number of steps that is enough for a text that is not empty. -/
theorem exists_eq_succ {cs : List Char} {fuel : Nat} (hcs : cs ≠ []) (hfuel : 2 * cs.length ≤ fuel) :
    ∃ n, fuel = n + 1 := by
  have hpos : 0 < cs.length := List.length_pos_iff.mpr hcs
  exact ⟨fuel - 1, by omega⟩

theorem Opens.ne_nil {cs : List Char} (h : Opens cs) : cs ≠ [] := by
  obtain ⟨c, rest, rfl, -⟩ := h
  exact List.cons_ne_nil c rest

mutual

/-- **Every value is read back**, whatever stands behind it. -/
theorem readValue_write {depth fuel : Nat} {rest : List Char} : ∀ {j : Json}, (∀ x ∈ j.reals, ReadsBack x) →
    Ended rest → 2 * (j.write depth).length ≤ fuel → readValue fuel (j.write depth ++ rest) = some (j, rest)
  | .null, hreals, _, hfuel => by
    obtain ⟨fuel, rfl⟩ := exists_eq_succ (opens_write depth _ hreals).ne_nil hfuel
    rfl
  | .truth true, hreals, _, hfuel => by
    obtain ⟨fuel, rfl⟩ := exists_eq_succ (opens_write depth _ hreals).ne_nil hfuel
    rfl
  | .truth false, hreals, _, hfuel => by
    obtain ⟨fuel, rfl⟩ := exists_eq_succ (opens_write depth _ hreals).ne_nil hfuel
    rfl
  | .count n, hreals, hrest, hfuel => by
    obtain ⟨fuel, rfl⟩ := exists_eq_succ (opens_write depth _ hreals).ne_nil hfuel
    rw [write]
    exact readValue_of_number? (fun c hc => isNumeral_of_mem_digits hc) (number?_digits n) hrest fuel
  | .real x, hreals, hrest, hfuel => by
    obtain ⟨fuel, rfl⟩ := exists_eq_succ (opens_write depth _ hreals).ne_nil hfuel
    have hx : ReadsBack x := hreals x (List.mem_singleton.mpr rfl)
    rw [write]
    exact readValue_of_number? (fun c hc => isNumeral_of_mem_text hx.isFinite hc) hx hrest fuel
  | .text s, hreals, _, hfuel => by
    obtain ⟨fuel, rfl⟩ := exists_eq_succ (opens_write depth _ hreals).ne_nil hfuel
    rw [write, writeText, List.cons_append, List.cons_append]
    show (readText none (s.toList.flatMap escape ++ ['"'] ++ rest)).map _ = _
    rw [readText_writeText]
    show some (Json.text (String.ofList s.toList), rest) = _
    rw [String.ofList_toList]
  | .list [], hreals, _, hfuel => by
    obtain ⟨fuel, rfl⟩ := exists_eq_succ (opens_write depth _ hreals).ne_nil hfuel
    rfl
  | .list (item :: items), hreals, _, hfuel => by
    obtain ⟨fuel, rfl⟩ := exists_eq_succ (opens_write depth _ hreals).ne_nil hfuel
    have hitem : ∀ x ∈ item.reals, ReadsBack x := fun x hx => hreals x (List.mem_append_left _ hx)
    have htext : write depth (.list (item :: items)) ++ rest = '[' :: (lineBreak (depth + 1) ++
        (item.write (depth + 1) ++ (writeItems (depth + 1) items ++ (lineBreak depth ++ ']' :: rest)))) := by
      simp only [write, List.cons_append, List.append_assoc, List.nil_append]
    have henough : 2 * ((item.write (depth + 1)).length + (writeItems (depth + 1) items).length) + 1 ≤ fuel := by
      simp only [write, List.length_cons, List.length_append] at hfuel
      omega
    rw [htext]
    exact readValue_list (opens_write _ _ hitem) (readItems_write hreals henough)
  | .object [], hreals, _, hfuel => by
    obtain ⟨fuel, rfl⟩ := exists_eq_succ (opens_write depth _ hreals).ne_nil hfuel
    rfl
  | .object ((name, value) :: fields), hreals, _, hfuel => by
    obtain ⟨fuel, rfl⟩ := exists_eq_succ (opens_write depth _ hreals).ne_nil hfuel
    have htext : write depth (.object ((name, value) :: fields)) ++ rest = '\x7b' :: (lineBreak (depth + 1) ++
        (writeText name ++ ':' :: ' ' :: (value.write (depth + 1) ++ (writeFields (depth + 1) fields ++
          (lineBreak depth ++ '\x7d' :: rest))))) := by
      simp only [write, List.cons_append, List.append_assoc, List.nil_append]
    have henough : 2 * ((value.write (depth + 1)).length + (writeFields (depth + 1) fields).length) + 1 ≤ fuel := by
      simp only [write, List.length_cons, List.length_append] at hfuel
      omega
    rw [htext]
    exact readValue_object (readFields_write hreals henough)
termination_by j => sizeOf j

theorem readItems_write {depth depth' fuel : Nat} {rest : List Char} : ∀ {item : Json} {items : List Json},
    (∀ x ∈ realsOfItems (item :: items), ReadsBack x) →
    2 * ((item.write depth).length + (writeItems depth items).length) + 1 ≤ fuel →
    readItems fuel (item.write depth ++ (writeItems depth items ++ (lineBreak depth' ++ ']' :: rest))) =
      some (item :: items, rest)
  | item, [], hreals, hfuel => by
    obtain ⟨fuel, rfl⟩ : ∃ n, fuel = n + 1 := ⟨fuel - 1, by omega⟩
    have hitem : ∀ x ∈ item.reals, ReadsBack x := fun x hx => hreals x (List.mem_append_left _ hx)
    exact readItems_last (readValue_write hitem (ended_lineBreak depth' _) (by omega))
  | item, next :: items, hreals, hfuel => by
    obtain ⟨fuel, rfl⟩ : ∃ n, fuel = n + 1 := ⟨fuel - 1, by omega⟩
    have hitem : ∀ x ∈ item.reals, ReadsBack x := fun x hx => hreals x (List.mem_append_left _ hx)
    have hrest : ∀ x ∈ realsOfItems (next :: items), ReadsBack x := fun x hx => hreals x (List.mem_append_right _ hx)
    have henough : 2 * ((next.write depth).length + (writeItems depth items).length) + 1 ≤ fuel := by
      simp only [writeItems, List.length_cons, List.length_append] at hfuel
      omega
    have htail : ∀ cs : List Char, writeItems depth (next :: items) ++ cs =
        ',' :: (lineBreak depth ++ (next.write depth ++ (writeItems depth items ++ cs))) := by
      simp only [writeItems, List.cons_append, List.append_assoc, implies_true]
    have hended := ended_writeItems depth depth' (next :: items) (']' :: rest)
    have henough' : 2 * (item.write depth).length ≤ fuel := by omega
    have hvalue := readValue_write hitem hended henough'
    rw [htail] at hvalue ⊢
    refine readItems_next hvalue ?_
    rw [readItems_of_skip_eq (skip_lineBreak depth _)]
    exact readItems_write hrest henough
termination_by item items => sizeOf item + sizeOf items

theorem readFields_write {depth depth' fuel : Nat} {rest : List Char} : ∀ {name : String} {value : Json}
    {fields : List (String × Json)}, (∀ x ∈ realsOfFields ((name, value) :: fields), ReadsBack x) →
    2 * ((value.write depth).length + (writeFields depth fields).length) + 1 ≤ fuel →
    readFields fuel (writeText name ++ ':' :: ' ' :: (value.write depth ++ (writeFields depth fields ++
      (lineBreak depth' ++ '\x7d' :: rest)))) = some ((name, value) :: fields, rest)
  | name, value, [], hreals, hfuel => by
    obtain ⟨fuel, rfl⟩ : ∃ n, fuel = n + 1 := ⟨fuel - 1, by omega⟩
    have hvalue : ∀ x ∈ value.reals, ReadsBack x := fun x hx => hreals x (List.mem_append_left _ hx)
    exact readFields_last (readValue_write hvalue (ended_lineBreak depth' _) (by omega))
  | name, value, (name', value') :: fields, hreals, hfuel => by
    obtain ⟨fuel, rfl⟩ : ∃ n, fuel = n + 1 := ⟨fuel - 1, by omega⟩
    have hvalue : ∀ x ∈ value.reals, ReadsBack x := fun x hx => hreals x (List.mem_append_left _ hx)
    have hrest : ∀ x ∈ realsOfFields ((name', value') :: fields), ReadsBack x :=
      fun x hx => hreals x (List.mem_append_right _ hx)
    have henough : 2 * ((value'.write depth).length + (writeFields depth fields).length) + 1 ≤ fuel := by
      simp only [writeFields, List.length_cons, List.length_append] at hfuel
      omega
    have htail : ∀ cs : List Char, writeFields depth ((name', value') :: fields) ++ cs = ',' :: (lineBreak depth ++
        (writeText name' ++ ':' :: ' ' :: (value'.write depth ++ (writeFields depth fields ++ cs)))) := by
      simp only [writeFields, List.cons_append, List.append_assoc, List.nil_append, implies_true]
    have hended := ended_writeFields depth depth' ((name', value') :: fields) ('\x7d' :: rest)
    have henough' : 2 * (value.write depth).length ≤ fuel := by omega
    have hread := readValue_write hvalue hended henough'
    rw [htail] at hread ⊢
    refine readFields_next hread ?_
    rw [readFields_of_skip_eq (skip_lineBreak depth _)]
    exact readFields_write hrest henough
termination_by _ value fields => sizeOf value + sizeOf fields

end

/-- **The indented text of a value is read back as that value**, if the reals in it are. -/
theorem read_pretty {j : Json} (hreals : ∀ x ∈ j.reals, ReadsBack x) : read j.pretty = some j := by
  have hended : Ended [] := by
    intro c hc
    exact absurd hc (by simp)
  have henough : 2 * (j.write 0).length ≤ 2 * (j.write 0).length + 1 := Nat.le_succ _
  have hread := readValue_write hreals hended henough
  rw [List.append_nil] at hread
  rw [read, pretty, String.toList_ofList, hread]
  rfl

end LogCorrelation.Json
