import LogCorrelation.Proofs.TimeOfDay.Fields
import Mathlib.Data.String.Basic

/-!
# Proofs.TimeOfDay.Grammar — which texts are times, and what is wrong with the others

`parse` reads the seconds from the bytes and builds the time from four numbers.  `parseBySlice` is the reader that cuts
the seconds out of the text, compares them as text and leaves the rest to a clock library: a cut that does not fall
between two characters stops it without an answer.

* `parseBySlice_eq`: with a library that reads a clock text as it is written, it always answers, and answers as `parse`.
* `parse_eq_error_iff`: the defect that a refusal names is the first one in the order of the checks.
* `parse_follows_grammar`: the accepted texts, their values, and every refusal.
-/

namespace LogCorrelation.TimeOfDay

open Decimal (DigitRun)

/-! ### Cutting a text at byte offsets -/

/-- The characters before and after a byte offset, if the offset lies between two characters. -/
def cut? : List Char → Nat → Option (List Char × List Char)
  | cs, 0 => some ([], cs)
  | [], _ + 1 => none
  | c :: cs, n + 1 =>
    if c.utf8Size ≤ n + 1 then (cut? cs (n + 1 - c.utf8Size)).map fun p => (c :: p.1, p.2) else none

/-- The part of a text between two byte offsets. -/
def slice? (text : String) (start stop : Nat) : Option String :=
  (cut? text.toList stop).bind fun p => (cut? p.1 start).map fun q => String.ofList q.2

theorem cut?_append {cs : List Char} (h : ∀ c ∈ cs, c.toNat < 128) (rest : List Char) :
    cut? (cs ++ rest) cs.length = some (cs, rest) := by
  induction cs with
  | nil => cases rest <;> rfl
  | cons c cs ih =>
    obtain ⟨hc, hcs⟩ := List.forall_mem_cons.mp h
    rw [List.cons_append, List.length_cons, cut?, utf8Size_of_toNat_lt hc, if_pos (Nat.le_add_left 1 _),
      Nat.add_sub_cancel, ih hcs]
    rfl

/-- In a text of ASCII characters every cut falls between two characters. -/
theorem slice?_ofList {pre mid : List Char} (h : ∀ c ∈ pre ++ mid, c.toNat < 128) (post : List Char) :
    slice? (String.ofList (pre ++ mid ++ post)) pre.length (pre ++ mid).length = some (String.ofList mid) := by
  rw [slice?, String.toList_ofList, cut?_append h]
  show (cut? (pre ++ mid) pre.length).map _ = _
  rw [cut?_append fun c hc => h c (List.mem_append_left mid hc)]
  rfl

theorem Fields.slice?_second (f : Fields) : slice? f.text 6 8 = some (String.ofList f.second.chars) := by
  have hchars : f.chars =
      (f.hour.chars ++ ':' :: f.minute.chars ++ [':']) ++ f.second.chars ++ '.' :: f.micro.chars := by
    simp [chars]
  have hascii : ∀ c ∈ (f.hour.chars ++ ':' :: f.minute.chars ++ [':']) ++ f.second.chars, c.toNat < 128 :=
    fun c hc => toNat_lt_of_mem_chars (hchars ▸ List.mem_append_left _ hc)
  have hslice := slice?_ofList hascii ('.' :: f.micro.chars)
  rw [← hchars] at hslice
  simpa [text] using hslice

/-- Two digits above `59` as a text are above 59 as a number. -/
theorem ofList_chars_gt_iff (d : DigitRun 2) : "59" < String.ofList d.chars ↔ 59 < d.value := by
  have hlimit : (DigitRun.ofNat 2 59).value = 59 := DigitRun.value_ofNat (by decide)
  rw [String.lt_iff_toList_lt, String.toList_ofList, String.toList_ofList, ← hlimit]
  exact DigitRun.chars_lt_chars_iff (DigitRun.ofNat 2 59) d

/-! ### The reader over a clock library -/

/-- A refused text and the reason. -/
structure Refusal where
  text : String
  reason : String
deriving DecidableEq

/-- The refusal that a malformed text is answered with. -/
def Malformed.refusal (m : Malformed) : Refusal := ⟨m.text, m.defect.reason⟩

/-- Reads a time; `none` where the cut for the seconds does not fall between two characters. -/
def parseBySlice (clock : String → Except String TimeOfDay) (text : String) : Option (Except Refusal TimeOfDay) :=
  let bytes := text.toUTF8.data.toList
  if bytes.length ≠ layout.length then
    some (.error ⟨text, Defect.length.reason⟩)
  else
    match misfit? layout bytes with
    | some i => some (.error ⟨text, (Defect.column (i + 1)).reason⟩)
    | none =>
      match slice? text 6 8 with
      | none => none
      | some seconds =>
        if "59" < seconds then
          some (.error ⟨text, Defect.second.reason⟩)
        else
          some ((clock text).mapError fun reason => ⟨text, reason⟩)

/-- The library reads `HH:MM:SS.ffffff` as it is written and refuses an hour above 23 and a minute above 59.  What it
does with seconds above 59 is left open: it may take them for a leap second. -/
structure ReadsClock (clock : String → Except String TimeOfDay) : Prop where
  inRange : ∀ f : Fields, f.InRange → ∃ t, clock f.text = .ok t ∧
    t.second = f.hour.value * 3600 + f.minute.value * 60 + f.second.value ∧ t.micro = f.micro.value
  outOfRange : ∀ f : Fields, f.second.value ≤ 59 → 23 < f.hour.value ∨ 59 < f.minute.value →
    clock f.text = .error "input is out of range"

namespace Fields

variable {f : Fields}

theorem ofFields?_of_inRange (h : f.InRange) :
    ∃ t, ofFields? f.hour.value f.minute.value f.second.value f.micro.value = some t ∧
      t.second = f.hour.value * 3600 + f.minute.value * 60 + f.second.value ∧ t.micro = f.micro.value := by
  obtain ⟨hh, hm, hs⟩ := h
  have hmicro : f.micro.value < 1000000 := f.micro.value_lt
  rw [ofFields?, dif_pos ⟨by omega, by omega, by omega, .inl hmicro⟩]
  exact ⟨_, rfl, rfl, rfl⟩

theorem parse_of_inRange (h : f.InRange) :
    ∃ t, parse f.text = .ok t ∧
      t.second = f.hour.value * 3600 + f.minute.value * 60 + f.second.value ∧ t.micro = f.micro.value := by
  obtain ⟨t, ht, hvalue⟩ := ofFields?_of_inRange h
  rw [parse_text, if_neg (Nat.not_lt.mpr h.2.2), ht]
  exact ⟨t, rfl, hvalue⟩

theorem parse_of_second (h : 59 < f.second.value) : parse f.text = .error ⟨f.text, .second⟩ := by
  rw [parse_text, if_pos h]

theorem parse_of_field (hs : f.second.value ≤ 59) (h : 23 < f.hour.value ∨ 59 < f.minute.value) :
    parse f.text = .error ⟨f.text, .field⟩ := by
  rw [parse_text, if_neg (Nat.not_lt.mpr hs), ofFields?, dif_neg (by omega)]
  rfl

theorem inRange_or (f : Fields) :
    f.InRange ∨ 59 < f.second.value ∨ f.second.value ≤ 59 ∧ (23 < f.hour.value ∨ 59 < f.minute.value) := by
  unfold InRange
  omega

theorem inRange_of_parse_text {t : TimeOfDay} (h : parse f.text = .ok t) : f.InRange := by
  rcases f.inRange_or with hf | hs | ⟨hs, hfield⟩
  · exact hf
  · exact absurd (h.symm.trans (parse_of_second hs)) (by simp)
  · exact absurd (h.symm.trans (parse_of_field hs hfield)) (by simp)

theorem micros_of_parse_text {t : TimeOfDay} (h : parse f.text = .ok t) :
    t.micros = ((f.hour.value * 60 + f.minute.value) * 60 + f.second.value) * 1000000 + f.micro.value := by
  obtain ⟨t', ht', hsecond, hmicro⟩ := parse_of_inRange (inRange_of_parse_text h)
  obtain rfl : t' = t := Except.ok.inj (ht'.symm.trans h)
  rw [micros, hsecond, hmicro]
  omega

end Fields

/-! ### The first defect -/

/-- A byte stands in a column that does not accept it. -/
def Breaks (cs : List Column) (bs : List UInt8) (i : Nat) : Prop :=
  ∃ c b, cs[i]? = some c ∧ bs[i]? = some b ∧ c.accepts b = false

theorem breaks_cons_zero {c : Column} {cs : List Column} {b : UInt8} {bs : List UInt8} :
    Breaks (c :: cs) (b :: bs) 0 ↔ c.accepts b = false := by
  simp [Breaks]

theorem breaks_cons_succ {c : Column} {cs : List Column} {b : UInt8} {bs : List UInt8} {i : Nat} :
    Breaks (c :: cs) (b :: bs) (i + 1) ↔ Breaks cs bs i := by
  simp [Breaks]

/-- The misfit is the smallest index of a byte that its column does not accept. -/
theorem misfit?_eq_some_iff {cs : List Column} {bs : List UInt8} {i : Nat} :
    misfit? cs bs = some i ↔ Breaks cs bs i ∧ ∀ j < i, ¬Breaks cs bs j := by
  induction cs generalizing bs i with
  | nil => simp [misfit?, Breaks]
  | cons c cs ih =>
    cases bs with
    | nil => simp [misfit?, Breaks]
    | cons b bs =>
      rw [misfit?]
      cases haccepts : c.accepts b with
      | false =>
        -- The first byte breaks, so no later index is the smallest.
        have hzero : Breaks (c :: cs) (b :: bs) 0 := breaks_cons_zero.mpr haccepts
        rw [if_neg (by simp)]
        constructor
        · intro h
          obtain rfl := Option.some.inj h
          exact ⟨hzero, fun j hj => absurd hj (Nat.not_lt_zero j)⟩
        · rintro ⟨-, hleast⟩
          cases i with
          | zero => rfl
          | succ i => exact absurd hzero (hleast 0 (Nat.succ_pos i))
      | true =>
        have hzero : ¬Breaks (c :: cs) (b :: bs) 0 := by simp [breaks_cons_zero, haccepts]
        rw [if_pos rfl]
        cases i with
        | zero => simp [hzero]
        | succ i =>
          rw [Option.map_eq_some_iff]
          simp only [Nat.add_right_cancel_iff, exists_eq_right, ih, breaks_cons_succ]
          refine and_congr_right fun _ => ⟨fun h j hj => ?_, fun h j hj => ?_⟩
          · cases j with
            | zero => exact hzero
            | succ j => exact breaks_cons_succ.not.mpr (h j (Nat.lt_of_succ_lt_succ hj))
          · exact breaks_cons_succ.not.mp (h (j + 1) (Nat.succ_lt_succ hj))

/-- The defect is the first one of a text: the length, then the leftmost column that breaks, then the seconds, then the
hour and the minute. -/
def IsFirstDefect (text : String) : Defect → Prop
  | .length => text.toUTF8.data.toList.length ≠ layout.length
  | .column number => text.toUTF8.data.toList.length = layout.length ∧
      ∃ i, number = i + 1 ∧ Breaks layout text.toUTF8.data.toList i ∧
        ∀ j < i, ¬Breaks layout text.toUTF8.data.toList j
  | .second => ∃ f : Fields, text = f.text ∧ 59 < f.second.value
  | .field => ∃ f : Fields, text = f.text ∧ f.second.value ≤ 59 ∧ (23 < f.hour.value ∨ 59 < f.minute.value)

/-- Every text is that of a time or has a first defect. -/
theorem inRange_or_isFirstDefect (text : String) :
    (∃ f : Fields, text = f.text ∧ f.InRange) ∨ ∃ d, IsFirstDefect text d := by
  by_cases hlen : text.toUTF8.data.toList.length = layout.length
  · cases hmisfit : misfit? layout text.toUTF8.data.toList with
    | some i => exact .inr ⟨.column (i + 1), hlen, i, rfl, misfit?_eq_some_iff.mp hmisfit⟩
    | none =>
      obtain ⟨f, hf⟩ := Fields.exists_fields_iff.mpr ⟨hlen, hmisfit⟩
      rcases f.inRange_or with h | h | h
      · exact .inl ⟨f, hf, h⟩
      · exact .inr ⟨.second, f, hf, h⟩
      · exact .inr ⟨.field, f, hf, h⟩
  · exact .inr ⟨.length, hlen⟩

theorem parse_of_isFirstDefect {text : String} {d : Defect} (h : IsFirstDefect text d) :
    parse text = .error ⟨text, d⟩ := by
  cases d with
  | length => exact if_pos h
  | column number =>
    obtain ⟨hlen, i, rfl, hbreaks⟩ := h
    unfold parse
    simp only [hlen, misfit?_eq_some_iff.mpr hbreaks]
    rfl
  | second =>
    obtain ⟨f, rfl, hs⟩ := h
    exact f.parse_of_second hs
  | field =>
    obtain ⟨f, rfl, hs, hfield⟩ := h
    exact f.parse_of_field hs hfield

/-- A text is refused for its first defect, and the refusal carries it unchanged. -/
theorem parse_eq_error_iff {text : String} {m : Malformed} :
    parse text = .error m ↔ m.text = text ∧ IsFirstDefect text m.defect := by
  constructor
  · intro herror
    rcases inRange_or_isFirstDefect text with ⟨f, rfl, hf⟩ | ⟨d, hd⟩
    · obtain ⟨t, ht, -⟩ := f.parse_of_inRange hf
      rw [ht] at herror
      exact absurd herror (by simp)
    · rw [parse_of_isFirstDefect hd] at herror
      obtain rfl := Except.error.inj herror
      exact ⟨rfl, hd⟩
  · rintro ⟨htext, hd⟩
    rw [parse_of_isFirstDefect hd, ← htext]

/-- A text is a time if and only if it has the layout and its fields are in range. -/
theorem exists_parse_iff {text : String} :
    (∃ t, parse text = .ok t) ↔ ∃ f : Fields, text = f.text ∧ f.InRange := by
  constructor
  · rintro ⟨t, ht⟩
    rcases inRange_or_isFirstDefect text with hf | ⟨d, hd⟩
    · exact hf
    · rw [parse_of_isFirstDefect hd] at ht
      exact absurd ht (by simp)
  · rintro ⟨f, rfl, hf⟩
    obtain ⟨t, ht, -⟩ := f.parse_of_inRange hf
    exact ⟨t, ht⟩

/-! ### The two readers -/

section Library

variable {clock : String → Except String TimeOfDay}

theorem Fields.parseBySlice_text (f : Fields) :
    parseBySlice clock f.text =
      some (if 59 < f.second.value then .error ⟨f.text, Defect.second.reason⟩
        else (clock f.text).mapError fun reason => ⟨f.text, reason⟩) := by
  unfold parseBySlice
  simp only [bytes_text, if_neg (not_not_intro f.length_bytes), misfit?_chars, slice?_second, ofList_chars_gt_iff]
  split <;> rfl

variable (h : ReadsClock clock)

include h

/-- **The reader with the cut always answers**, and it answers as `parse`. -/
theorem parseBySlice_eq (text : String) :
    parseBySlice clock text = some ((parse text).mapError Malformed.refusal) := by
  rcases inRange_or_isFirstDefect text with ⟨f, rfl, hf⟩ | ⟨d, hd⟩
  · obtain ⟨t, ht, hsecond, hmicro⟩ := h.inRange f hf
    obtain ⟨t', ht', hsecond', hmicro'⟩ := f.parse_of_inRange hf
    obtain rfl : t = t' := eq_of_fields (hsecond.trans hsecond'.symm) (hmicro.trans hmicro'.symm)
    rw [f.parseBySlice_text, if_neg (Nat.not_lt.mpr hf.2.2), ht, ht']
    rfl
  · -- Only the last defect is found by the library; the text is cut only where it has the layout.
    rw [parse_of_isFirstDefect hd]
    cases d with
    | length => exact if_pos hd
    | column number =>
      obtain ⟨hlen, i, rfl, hbreaks⟩ := hd
      unfold parseBySlice
      simp only [hlen, misfit?_eq_some_iff.mpr hbreaks]
      rfl
    | second =>
      obtain ⟨f, rfl, hs⟩ := hd
      rw [f.parseBySlice_text, if_pos hs]
      rfl
    | field =>
      obtain ⟨f, rfl, hs, hfield⟩ := hd
      rw [f.parseBySlice_text, if_neg (Nat.not_lt.mpr hs), h.outOfRange f hs hfield]
      rfl

end Library

/-- A clock library that takes sixty seconds for a leap second. -/
def leapClock (text : String) : Except String TimeOfDay :=
  let bytes := text.toUTF8.data.toList
  let second := field bytes 6 2
  let time :=
    if second = 60 then ofFields? (field bytes 0 2) (field bytes 3 2) 59 (1000000 + field bytes 9 6)
    else ofFields? (field bytes 0 2) (field bytes 3 2) second (field bytes 9 6)
  match time with
  | some t => .ok t
  | none => .error "input is out of range"

theorem readsClock_leapClock : ReadsClock leapClock where
  inRange f hf := by
    obtain ⟨t, ht, hvalue⟩ := f.ofFields?_of_inRange hf
    have hs : ¬f.second.value = 60 := by have := hf.2.2; omega
    refine ⟨t, ?_, hvalue⟩
    simp only [leapClock, Fields.bytes_text, Fields.field_hour, Fields.field_minute, Fields.field_second,
      Fields.field_micro, if_neg hs, ht]
  outOfRange f hsecond hfield := by
    have hs : ¬f.second.value = 60 := by omega
    have hnone : ofFields? f.hour.value f.minute.value f.second.value f.micro.value = none := dif_neg (by omega)
    simp only [leapClock, Fields.bytes_text, Fields.field_hour, Fields.field_minute, Fields.field_second,
      Fields.field_micro, if_neg hs, hnone]

end LogCorrelation.TimeOfDay
