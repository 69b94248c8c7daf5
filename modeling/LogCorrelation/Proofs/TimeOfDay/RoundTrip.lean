import LogCorrelation.Proofs.TimeOfDay.Grammar
import LogCorrelation.Proofs.TimeOfDay.Order

/-!
# Proofs.TimeOfDay.RoundTrip — the text of a time is a faithful encoding

* `parse_text_of_micro_lt`: a time outside leap seconds is read back from its text.
* `text_of_parse_eq_ok`: a text that is read is the text of the time read.
* `Fields.text_lt_text_iff`: texts in the layout are ordered field by field.
* `ClockText.encodes_faithfully`: texts, times and microseconds correspond, in the same order.
-/

namespace LogCorrelation.TimeOfDay

open Decimal (DigitRun)

/-! ### The fields of a time -/

/-- The four fields that the text of a time shows. -/
def fields (t : TimeOfDay) : Fields :=
  ⟨DigitRun.ofNat 2 t.hour, DigitRun.ofNat 2 t.minute, DigitRun.ofNat 2 t.shownSecond, DigitRun.ofNat 6 t.shownMicro⟩

theorem text_fields (t : TimeOfDay) : t.fields.text = t.text := rfl

section Shown

variable {t : TimeOfDay} (h : t.micro < 1000000)

include h

theorem shownSecond_of_micro_lt : t.shownSecond = t.second % 60 := by
  rw [shownSecond, Nat.div_eq_of_lt h, Nat.add_zero]

theorem shownMicro_of_micro_lt : t.shownMicro = t.micro := Nat.mod_eq_of_lt h

/-- Outside leap seconds all fields of a time are in range, and they are its own. -/
theorem fields_of_micro_lt :
    t.fields.InRange ∧ t.second = t.fields.hour.value * 3600 + t.fields.minute.value * 60 + t.fields.second.value ∧
      t.micro = t.fields.micro.value := by
  have hsecond := t.second_lt
  -- Each field fits its width, so its value is read back from its digits.
  have hhour : t.fields.hour.value = t.second / 3600 :=
    DigitRun.value_ofNat (show t.second / 3600 < 10 ^ 2 by omega)
  have hminute : t.fields.minute.value = t.second / 60 % 60 :=
    DigitRun.value_ofNat (show t.second / 60 % 60 < 10 ^ 2 by omega)
  have hshown : t.fields.second.value = t.second % 60 := by
    rw [← shownSecond_of_micro_lt h]
    exact DigitRun.value_ofNat (by rw [shownSecond_of_micro_lt h]; omega)
  have hmicro : t.fields.micro.value = t.micro := by
    rw [← shownMicro_of_micro_lt h]
    exact DigitRun.value_ofNat (by rwa [shownMicro_of_micro_lt h])
  unfold Fields.InRange
  omega

/-- **A time outside leap seconds** is read back from its text. -/
theorem parse_text_of_micro_lt : parse t.text = .ok t := by
  obtain ⟨hrange, hsecond, hmicro⟩ := fields_of_micro_lt h
  obtain ⟨t', ht', hsecond', hmicro'⟩ := Fields.parse_of_inRange hrange
  rw [← text_fields, ht', eq_of_fields (hsecond'.trans hsecond.symm) (hmicro'.trans hmicro.symm)]

end Shown

/-- Fields in range are determined by the second and the microseconds that they denote. -/
theorem Fields.eq_of_time {f g : Fields} (hf : f.InRange) (hg : g.InRange)
    (hsecond : f.hour.value * 3600 + f.minute.value * 60 + f.second.value =
      g.hour.value * 3600 + g.minute.value * 60 + g.second.value)
    (hmicro : f.micro.value = g.micro.value) : f = g := by
  obtain ⟨-, hfm, hfs⟩ := hf
  obtain ⟨-, hgm, hgs⟩ := hg
  have hhour : f.hour = g.hour := DigitRun.value_inj.mp (by omega)
  have hminute : f.minute = g.minute := DigitRun.value_inj.mp (by omega)
  have hsecond : f.second = g.second := DigitRun.value_inj.mp (by omega)
  have hmicro : f.micro = g.micro := DigitRun.value_inj.mp hmicro
  cases f
  cases g
  simp_all

/-- **A text that is read** is the text of the time read. -/
theorem text_of_parse_eq_ok {text : String} {t : TimeOfDay} (h : parse text = .ok t) : t.text = text := by
  obtain ⟨f, rfl, hf⟩ := exists_parse_iff.mp ⟨t, h⟩
  obtain ⟨t', ht', hsecond, hmicro⟩ := Fields.parse_of_inRange hf
  obtain rfl : t' = t := Except.ok.inj (ht'.symm.trans h)
  obtain ⟨hrange, hsecond', hmicro'⟩ := fields_of_micro_lt (micro_lt_of_parse_eq_ok h)
  rw [← text_fields, Fields.eq_of_time hrange hf (hsecond'.symm.trans hsecond) (hmicro'.symm.trans hmicro)]

/-! ### Order -/

/-- Texts that begin with parts of one length are ordered by these parts, and by the rest where the parts agree. -/
theorem append_lt_append_iff : ∀ {l₁ l₂ r₁ r₂ : List Char}, l₁.length = l₂.length →
    (l₁ ++ r₁ < l₂ ++ r₂ ↔ l₁ < l₂ ∨ l₁ = l₂ ∧ r₁ < r₂)
  | [], [], _, _, _ => by simp
  | a :: l₁, b :: l₂, r₁, r₂, h => by
    rw [List.cons_append, List.cons_append, List.cons_lt_cons_iff, List.cons_lt_cons_iff,
      append_lt_append_iff (Nat.succ.inj h), List.cons.injEq]
    tauto

theorem cons_lt_cons_self_iff {c : Char} {l₁ l₂ : List Char} : c :: l₁ < c :: l₂ ↔ l₁ < l₂ := by
  rw [List.cons_lt_cons_iff]
  simp

theorem digitRun_append_lt_iff {width : Nat} (d e : DigitRun width) (r₁ r₂ : List Char) :
    d.chars ++ r₁ < e.chars ++ r₂ ↔ d.value < e.value ∨ d.value = e.value ∧ r₁ < r₂ := by
  have heq : d.chars = e.chars ↔ d.value = e.value := ⟨fun h => DigitRun.value_inj.mpr (DigitRun.ext h),
    fun h => congrArg DigitRun.chars (DigitRun.value_inj.mp h)⟩
  rw [append_lt_append_iff (d.length_chars.trans e.length_chars.symm), DigitRun.chars_lt_chars_iff, heq]

/-- **Texts in the layout are ordered field by field.** -/
theorem Fields.text_lt_text_iff (f g : Fields) :
    f.text < g.text ↔ f.hour.value < g.hour.value ∨ f.hour.value = g.hour.value ∧
      (f.minute.value < g.minute.value ∨ f.minute.value = g.minute.value ∧
        (f.second.value < g.second.value ∨ f.second.value = g.second.value ∧ f.micro.value < g.micro.value)) := by
  rw [text, text, String.lt_iff_toList_lt, String.toList_ofList, String.toList_ofList, chars, chars]
  simp only [List.append_assoc, List.cons_append, digitRun_append_lt_iff, cons_lt_cons_self_iff,
    DigitRun.chars_lt_chars_iff]

theorem compareOfLessAndEq_congr {α β : Type} [LT α] [DecidableEq α] [DecidableLT α] [LT β] [DecidableEq β]
    [DecidableLT β] {a b : α} {c d : β} (hlt : a < b ↔ c < d) (heq : a = b ↔ c = d) :
    compareOfLessAndEq a b = compareOfLessAndEq c d := by
  simp only [compareOfLessAndEq, hlt, heq]

/-! ### Readable texts -/

/-- A text that is read as a time, with that time. -/
structure ClockText where
  text : String
  time : TimeOfDay
  parse_text : parse text = .ok time

namespace ClockText

variable (a b : ClockText)

theorem micro_lt : a.time.micro < 1000000 := micro_lt_of_parse_eq_ok a.parse_text

theorem text_time : a.time.text = a.text := text_of_parse_eq_ok a.parse_text

theorem ext_time {a b : ClockText} (h : a.time = b.time) : a = b := by
  have htext : a.text = b.text := by rw [← a.text_time, h, b.text_time]
  cases a
  cases b
  simp_all

theorem text_eq_text_iff : a.text = b.text ↔ a.time = b.time :=
  ⟨fun h => Except.ok.inj (a.parse_text.symm.trans (h ▸ b.parse_text)), fun h => congrArg text (ext_time h)⟩

theorem text_lt_text_iff : a.text < b.text ↔ a.time < b.time := by
  obtain ⟨⟨-, ham, has⟩, hasecond, hamicro⟩ := fields_of_micro_lt a.micro_lt
  obtain ⟨⟨-, hbm, hbs⟩, hbsecond, hbmicro⟩ := fields_of_micro_lt b.micro_lt
  rw [← a.text_time, ← b.text_time, ← text_fields, ← text_fields, Fields.text_lt_text_iff, lt_iff, hasecond, hamicro,
    hbsecond, hbmicro]
  omega

theorem micros_eq_micros_iff : a.time.micros = b.time.micros ↔ a.time = b.time := by
  have ha := a.micro_lt
  have hb := b.micro_lt
  refine ⟨fun h => ?_, congrArg TimeOfDay.micros⟩
  unfold TimeOfDay.micros at h
  exact eq_of_fields (by omega) (by omega)

/-- The microseconds since midnight that a text denotes: less than a day's. -/
def micros : Fin 86400000000 :=
  ⟨a.time.micros, by
    have hsecond := a.time.second_lt
    have hmicro := a.micro_lt
    unfold TimeOfDay.micros
    omega⟩

theorem micros_injective : Function.Injective micros := fun a b h =>
  ext_time ((micros_eq_micros_iff a b).mp (Fin.mk.inj h))

/-- Every number of microseconds in a day has its text. -/
theorem micros_surjective : Function.Surjective micros := by
  intro n
  let t : TimeOfDay := ⟨n / 1000000, n % 1000000, by omega, by omega⟩
  refine ⟨⟨t.text, t, parse_text_of_micro_lt (Nat.mod_lt _ (by decide))⟩, Fin.ext ?_⟩
  exact Nat.div_add_mod' n 1000000

/-- **The text of a time is a faithful encoding** that keeps the order: writing the time of a readable text gives the
text back, reading the text of fields in range gives their time back, two readable texts stand to each other as their
times and as their microseconds, and every number of microseconds in a day is that of exactly one readable text. -/
theorem encodes_faithfully :
    (∀ a : ClockText, a.time.text = a.text) ∧
      (∀ (hour : Fin 24) (minute second : Fin 60) (micro : Fin 1000000),
        ∃ t, ofFields? hour minute second micro = some t ∧ parse t.text = .ok t) ∧
      (∀ a b : ClockText, compare a.text b.text = order a.time b.time ∧
        order a.time b.time = compare a.time.micros b.time.micros) ∧
      Function.Bijective micros := by
  refine ⟨text_time, fun hour minute second micro => ?_, fun a b => ⟨?_, ?_⟩, micros_injective, micros_surjective⟩
  · have hrange : (hour : Nat) < 24 ∧ (minute : Nat) < 60 ∧ (second : Nat) < 60 ∧
        ((micro : Nat) < 1000000 ∨ (second : Nat) = 59 ∧ (micro : Nat) < 2000000) :=
      ⟨hour.isLt, minute.isLt, second.isLt, .inl micro.isLt⟩
    exact ⟨_, dif_pos hrange, parse_text_of_micro_lt micro.isLt⟩
  · exact compareOfLessAndEq_congr (text_lt_text_iff a b) (text_eq_text_iff a b)
  · exact compareOfLessAndEq_congr (micros_lt_micros_iff a.micro_lt b.micro_lt).symm (micros_eq_micros_iff a b).symm

end ClockText

end LogCorrelation.TimeOfDay
