import LogCorrelation.Proofs.Decimal.FixedWidth
import LogCorrelation.Proofs.TimeOfDay.Reading

/-!
# Proofs.TimeOfDay.Fields — texts in the layout of a time

A text fits the layout `HH:MM:SS.ffffff` exactly if it is the text of four runs of digits (`Fields`).  Reading such a
text reads the four values.

* `exists_fields_iff`: fifteen bytes without a misfit are the text of four runs of digits.
* `parse_text`: what reading that text gives.
-/

namespace LogCorrelation.TimeOfDay

open Decimal (DigitRun)

/-! ### ASCII text and its bytes -/

theorem toNat_toUInt8 {c : Char} (h : c.toNat < 128) : c.toUInt8.toNat = c.toNat := by
  show c.val.toUInt8.toNat = c.toNat
  rw [UInt32.toNat_toUInt8]
  exact Nat.mod_eq_of_lt (Nat.lt_trans h (by decide))

theorem utf8Size_of_toNat_lt {c : Char} (h : c.toNat < 128) : c.utf8Size = 1 :=
  Char.utf8Size_eq_one_iff.mpr (UInt32.le_iff_toNat_le.mpr (Nat.le_of_lt_succ h))

theorem utf8EncodeChar_of_toNat_lt {c : Char} (h : c.toNat < 128) : String.utf8EncodeChar c = [c.toUInt8] :=
  String.utf8EncodeChar_eq_singleton (utf8Size_of_toNat_lt h)

/-- The bytes of a text of ASCII characters are their numbers. -/
theorem bytes_ofList {cs : List Char} (h : ∀ c ∈ cs, c.toNat < 128) :
    (String.ofList cs).toUTF8.data.toList = cs.map Char.toUInt8 := by
  calc (String.ofList cs).toUTF8.data.toList
      = cs.utf8Encode.data.toList := by rw [String.toUTF8_eq_toByteArray, String.toByteArray_ofList]
    _ = (cs.map String.utf8EncodeChar).flatten := by
        rw [List.utf8Encode, List.toList_data_toByteArray, List.flatMap_def]
    _ = (cs.map fun c => [c.toUInt8]).flatten := by
        rw [List.map_congr_left fun c hc => utf8EncodeChar_of_toNat_lt (h c hc)]
    _ = cs.map Char.toUInt8 := by rw [← List.flatMap_def, List.map_eq_flatMap]

/-- A text with ASCII bytes consists of the characters with these numbers. -/
theorem eq_ofList_of_bytes {text : String} {cs : List Char} (h : ∀ c ∈ cs, c.toNat < 128)
    (hbytes : text.toUTF8.data.toList = cs.map Char.toUInt8) : text = String.ofList cs := by
  rw [← bytes_ofList h] at hbytes
  exact String.toByteArray_inj.mp (ByteArray.ext (Array.toList_inj.mp hbytes))

/-! ### Four runs of digits -/

/-- The fields of a text in the layout `HH:MM:SS.ffffff`. -/
structure Fields where
  hour : DigitRun 2
  minute : DigitRun 2
  second : DigitRun 2
  micro : DigitRun 6

namespace Fields

/-- The characters of the fields with the marks between them. -/
def chars (f : Fields) : List Char :=
  f.hour.chars ++ ':' :: f.minute.chars ++ ':' :: f.second.chars ++ '.' :: f.micro.chars

/-- The text `HH:MM:SS.ffffff`. -/
def text (f : Fields) : String := String.ofList f.chars

/-- The fields are those of a time: the hour is at most 23, the minute and the second are at most 59. -/
def InRange (f : Fields) : Prop := f.hour.value ≤ 23 ∧ f.minute.value ≤ 59 ∧ f.second.value ≤ 59

theorem toNat_lt_of_mem_chars {f : Fields} {c : Char} (h : c ∈ f.chars) : c.toNat < 128 := by
  have hdigit {width : Nat} (d : DigitRun width) (hc : c ∈ d.chars) : c.toNat < 128 := by
    have := Decimal.toNat_of_isDigit (d.isDigit c hc)
    omega
  simp only [chars, List.mem_append, List.mem_cons] at h
  rcases h with ((h | rfl | h) | rfl | h) | rfl | h
  · exact hdigit _ h
  · decide
  · exact hdigit _ h
  · decide
  · exact hdigit _ h
  · decide
  · exact hdigit _ h

theorem bytes_text (f : Fields) : f.text.toUTF8.data.toList = f.chars.map Char.toUInt8 :=
  bytes_ofList fun _ => toNat_lt_of_mem_chars

end Fields

/-! ### Bytes that fit the layout -/

theorem accepts_digit_iff {b : UInt8} : Column.digit.accepts b = true ↔ 48 ≤ b.toNat ∧ b.toNat ≤ 57 := by
  simp only [Column.accepts, Bool.and_eq_true, decide_eq_true_eq, UInt8.le_iff_toNat_le]
  rfl

/-- A byte that a digit column accepts is the byte of a digit. -/
theorem digit_of_accepts {b : UInt8} (h : Column.digit.accepts b = true) :
    (Char.ofNat b.toNat).isDigit = true ∧ (Char.ofNat b.toNat).toUInt8 = b := by
  have hrange := accepts_digit_iff.mp h
  have hchar : (Char.ofNat b.toNat).toNat = b.toNat := by
    rw [Char.ofNat, dif_pos (Or.inl (by omega))]
    rfl
  refine ⟨Char.isDigit_iff_toNat.mpr (hchar.symm ▸ hrange), UInt8.toNat_inj.mp ?_⟩
  rw [toNat_toUInt8 (by omega), hchar]

theorem accepts_toUInt8 {c : Char} (h : c.isDigit = true) : Column.digit.accepts c.toUInt8 = true := by
  have hrange := Decimal.toNat_of_isDigit h
  have hbyte := toNat_toUInt8 (Nat.lt_of_le_of_lt hrange.2 (by decide))
  rw [accepts_digit_iff, hbyte]
  exact hrange

theorem exists_digitRun {bs : List UInt8} {width : Nat} (hlen : bs.length = width)
    (h : ∀ b ∈ bs, Column.digit.accepts b = true) : ∃ d : DigitRun width, d.chars.map Char.toUInt8 = bs := by
  refine ⟨⟨bs.map fun b => Char.ofNat b.toNat, by simpa using hlen, ?_⟩, ?_⟩
  · intro c hc
    obtain ⟨b, hb, rfl⟩ := List.mem_map.mp hc
    exact (digit_of_accepts (h b hb)).1
  · rw [List.map_map]
    calc bs.map (Char.toUInt8 ∘ fun b => Char.ofNat b.toNat)
        = bs.map id := List.map_congr_left fun b hb => (digit_of_accepts (h b hb)).2
      _ = bs := List.map_id bs

section Misfit

variable {bs : List UInt8} (hlen : bs.length = layout.length) (h : misfit? layout bs = none)

include hlen h

theorem mark_of_misfit?_eq_none {i : Nat} {m : UInt8} (hi : layout[i]? = some (.mark m)) : bs[i]? = some m := by
  obtain ⟨hlt, -⟩ := List.getElem?_eq_some_iff.mp hi
  rw [← hlen] at hlt
  have hp : (layout.zip bs)[i]? = some (.mark m, bs[i]) :=
    List.getElem?_zip_eq_some.mpr ⟨hi, List.getElem?_eq_getElem hlt⟩
  have haccepts : bs[i] = m := by simpa [Column.accepts] using misfit?_eq_none_iff.mp h _ (List.mem_of_getElem? hp)
  rw [List.getElem?_eq_getElem hlt, haccepts]

theorem exists_field (start count : Nat) (hfits : start + count ≤ layout.length)
    (hd : ∀ i < count, layout[start + i]? = some .digit) :
    ∃ d : DigitRun count, d.chars.map Char.toUInt8 = (bs.drop start).take count := by
  refine exists_digitRun ?_ (digits_of_misfit?_eq_none h hd)
  rw [List.length_take, List.length_drop]
  omega

/-- Cuts a field and the mark behind it off the bytes from a place on. -/
theorem drop_eq_field_mark {start count : Nat} {m : UInt8} (hm : layout[start + count]? = some (.mark m)) :
    bs.drop start = (bs.drop start).take count ++ m :: bs.drop (start + count + 1) := by
  obtain ⟨hlt, hbyte⟩ := List.getElem?_eq_some_iff.mp (mark_of_misfit?_eq_none hlen h hm)
  rw [← hbyte, ← List.drop_eq_getElem_cons hlt, ← List.drop_drop, List.take_append_drop]

/-- **Fifteen bytes without a misfit** are those of four runs of digits and the marks between them. -/
theorem exists_fields : ∃ f : Fields, bs = f.chars.map Char.toUInt8 := by
  obtain ⟨hour, hhour⟩ := exists_field hlen h 0 2 (by decide) fun i hi => by interval_cases i <;> rfl
  obtain ⟨minute, hminute⟩ := exists_field hlen h 3 2 (by decide) fun i hi => by interval_cases i <;> rfl
  obtain ⟨second, hsecond⟩ := exists_field hlen h 6 2 (by decide) fun i hi => by interval_cases i <;> rfl
  obtain ⟨micro, hmicro⟩ := exists_field hlen h 9 6 (by decide) fun i hi => by interval_cases i <;> rfl
  -- Each cut takes a field and the mark behind it off what is left; the last field has nothing behind it.
  have hcut : bs.drop 0 = (bs.drop 0).take 2 ++ 58 :: bs.drop 3 := drop_eq_field_mark hlen h rfl
  have hcut3 : bs.drop 3 = (bs.drop 3).take 2 ++ 58 :: bs.drop 6 := drop_eq_field_mark hlen h rfl
  have hcut6 : bs.drop 6 = (bs.drop 6).take 2 ++ 46 :: bs.drop 9 := drop_eq_field_mark hlen h rfl
  have hcut9 : bs.drop 9 = (bs.drop 9).take 6 :=
    (List.take_of_length_le (by rw [List.length_drop, hlen]; decide)).symm
  refine ⟨⟨hour, minute, second, micro⟩, ?_⟩
  calc bs
      = bs.drop 0 := rfl
    _ = hour.chars.map Char.toUInt8 ++ 58 :: bs.drop 3 := by rw [hhour, ← hcut]
    _ = hour.chars.map Char.toUInt8 ++ 58 :: (minute.chars.map Char.toUInt8 ++ 58 :: bs.drop 6) := by
        rw [hminute, ← hcut3]
    _ = hour.chars.map Char.toUInt8 ++ 58 :: (minute.chars.map Char.toUInt8 ++
          58 :: (second.chars.map Char.toUInt8 ++ 46 :: micro.chars.map Char.toUInt8)) := by
        rw [hsecond, hmicro, ← hcut9, ← hcut6]
    _ = (Fields.chars ⟨hour, minute, second, micro⟩).map Char.toUInt8 := by
        simp only [Fields.chars, List.map_append, List.map_cons, List.append_assoc, List.cons_append]
        rfl

end Misfit

/-! ### The bytes of four runs of digits -/

namespace Fields

variable (f : Fields)

theorem length_bytes : (f.chars.map Char.toUInt8).length = layout.length := by
  simp only [chars, List.length_map, List.length_append, List.length_cons, DigitRun.length_chars]
  rfl

theorem misfit?_digitRun {width : Nat} (d : DigitRun width) (cs : List Column) (bs : List UInt8) :
    misfit? (List.replicate width .digit ++ cs) (d.chars.map Char.toUInt8 ++ bs) = none ↔ misfit? cs bs = none := by
  obtain ⟨ds, rfl, hd⟩ := d
  dsimp only
  induction ds with
  | nil => rfl
  | cons c ds ih =>
    obtain ⟨hc, hds⟩ := List.forall_mem_cons.mp hd
    rw [List.length_cons, List.replicate_succ, List.map_cons, List.cons_append, List.cons_append, misfit?,
      if_pos (accepts_toUInt8 hc), Option.map_eq_none_iff, ih hds]

theorem misfit?_mark (m : UInt8) (cs : List Column) (bs : List UInt8) :
    misfit? (.mark m :: cs) (m :: bs) = none ↔ misfit? cs bs = none := by
  rw [misfit?, if_pos (by simp [Column.accepts]), Option.map_eq_none_iff]

/-- The characters of four runs of digits fit the layout. -/
theorem misfit?_chars : misfit? layout (f.chars.map Char.toUInt8) = none := by
  have hlayout : layout = List.replicate 2 .digit ++ .mark 58 :: (List.replicate 2 .digit ++ .mark 58 ::
      (List.replicate 2 .digit ++ .mark 46 :: (List.replicate 6 .digit ++ []))) := rfl
  have hchars : f.chars.map Char.toUInt8 = f.hour.chars.map Char.toUInt8 ++ 58 :: (f.minute.chars.map Char.toUInt8 ++
      58 :: (f.second.chars.map Char.toUInt8 ++ 46 :: (f.micro.chars.map Char.toUInt8 ++ []))) := by
    simp only [chars, List.map_append, List.map_cons, List.append_assoc, List.cons_append, List.append_nil]
    rfl
  rw [hlayout, hchars, misfit?_digitRun, misfit?_mark, misfit?_digitRun, misfit?_mark, misfit?_digitRun, misfit?_mark,
    misfit?_digitRun]
  rfl

theorem foldl_toUInt8 {ds : List Char} (h : ∀ c ∈ ds, c.isDigit = true) (n : Nat) :
    (ds.map Char.toUInt8).foldl (fun n b => 10 * n + (b.toNat - 48)) n =
      ds.foldl (fun n d => 10 * n + Decimal.digitValue d) n := by
  induction ds generalizing n with
  | nil => rfl
  | cons c ds ih =>
    obtain ⟨hc, hds⟩ := List.forall_mem_cons.mp h
    have hbyte := toNat_toUInt8 (Nat.lt_of_le_of_lt (Decimal.toNat_of_isDigit hc).2 (by decide))
    rw [List.map_cons, List.foldl_cons, hbyte, List.foldl_cons]
    exact ih hds _

/-- A run of digits that stands at a place is read there as its value. -/
theorem field_eq_value {width start : Nat} {d : DigitRun width} (h : (f.chars.drop start).take width = d.chars) :
    field (f.chars.map Char.toUInt8) start width = d.value := by
  rw [field, ← List.map_drop, ← List.map_take, h]
  exact foldl_toUInt8 d.isDigit 0

theorem field_hour : field (f.chars.map Char.toUInt8) 0 2 = f.hour.value :=
  f.field_eq_value (by simp [chars])

theorem field_minute : field (f.chars.map Char.toUInt8) 3 2 = f.minute.value :=
  f.field_eq_value (by simp [chars, List.drop_append, List.drop_of_length_le])

theorem field_second : field (f.chars.map Char.toUInt8) 6 2 = f.second.value :=
  f.field_eq_value (by simp [chars, List.drop_append, List.drop_of_length_le])

theorem field_micro : field (f.chars.map Char.toUInt8) 9 6 = f.micro.value :=
  f.field_eq_value (by simp [chars, List.drop_append, List.drop_of_length_le, List.take_of_length_le])

/-- **A text fits the layout** if and only if it is the text of four runs of digits. -/
theorem exists_fields_iff {text : String} :
    (∃ f : Fields, text = f.text) ↔
      text.toUTF8.data.toList.length = layout.length ∧ misfit? layout text.toUTF8.data.toList = none := by
  constructor
  · rintro ⟨f, rfl⟩
    rw [bytes_text]
    exact ⟨f.length_bytes, f.misfit?_chars⟩
  · rintro ⟨hlen, hmisfit⟩
    obtain ⟨f, hf⟩ := exists_fields hlen hmisfit
    exact ⟨f, eq_ofList_of_bytes (fun _ => toNat_lt_of_mem_chars) hf⟩

/-- **Reading a text in the layout** checks the seconds before it checks the hour and the minute. -/
theorem parse_text :
    parse f.text =
      if 59 < f.second.value then
        .error ⟨f.text, .second⟩
      else
        (ofFields? f.hour.value f.minute.value f.second.value f.micro.value).elim (.error ⟨f.text, .field⟩) .ok := by
  unfold parse
  simp only [bytes_text, if_neg (not_not_intro f.length_bytes), misfit?_chars, field_hour, field_minute, field_second,
    field_micro]
  cases ofFields? f.hour.value f.minute.value f.second.value f.micro.value <;> rfl

end Fields

end LogCorrelation.TimeOfDay
