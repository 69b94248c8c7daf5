import LogCorrelation.Proofs.Log.Chunks
import LogCorrelation.Proofs.TimeOfDay.Reading

/-!
# Proofs.Log.Transcript — a log's answers are those of its lines

A reader that is called until it answers nothing gives the transcript of the log's lines, whatever the chunks in which
the log is handed out.  The induction is over the lines and not over the calls: a call with a blank line in front is
the call with that line gone (`next_ofLines_blank`), and every other line is one call.

* `throughEnd_calls_ofLines`: the calls on given lines, from any count of lines and any last time on.
* `callsToEnd_ofSource`: the calls on a log, from its start to its end.
-/

namespace LogCorrelation.Log

namespace Reader

/-! ### One line -/

section Line

variable {line : List UInt8} {text : String}

theorem Line.ofBytes_notText (h : trimmed? line = none) : Line.ofBytes line = .notText := by
  have hbytes : String.fromUTF8? ⟨line.toArray⟩ = none := Option.map_eq_none_iff.mp h
  simp only [ofBytes, hbytes]

theorem Line.ofBytes_blank (h : trimmed? line = some "") : Line.ofBytes line = .blank := by
  obtain ⟨whole, hbytes, htrim⟩ := Option.map_eq_some_iff.mp h
  simp [ofBytes, hbytes, htrim]

theorem Line.ofBytes_malformed (h : trimmed? line = some text) (hne : text ≠ "") {cause : TimeOfDay.Malformed}
    (hparse : TimeOfDay.parse text = .error cause) : Line.ofBytes line = .malformed ⟨text, cause.defect⟩ := by
  obtain ⟨whole, hbytes, htrim⟩ := Option.map_eq_some_iff.mp h
  have hcause : cause = ⟨text, cause.defect⟩ := by rw [← TimeOfDay.text_of_parse_eq_error hparse]
  rw [← hcause]
  simp [ofBytes, hbytes, htrim, hne, hparse]

theorem Line.ofBytes_time (h : trimmed? line = some text) (hne : text ≠ "") {t : TimeOfDay}
    (hparse : TimeOfDay.parse text = .ok t) : Line.ofBytes line = .time t := by
  obtain ⟨whole, hbytes, htrim⟩ := Option.map_eq_some_iff.mp h
  simp [ofBytes, hbytes, htrim, hne, hparse]

end Line

/-! ### One call -/

section Advance

variable (r : Reader) (count : Nat) (rest : List LineRead) {line : List UInt8}

theorem advance_notText (h : trimmed? line = none) :
    r.advance count (.line line :: rest) =
      r.fail (.unreadable r.name (count + 1) "stream did not contain valid UTF-8") count rest := by
  rw [advance, Line.ofBytes_notText h]

theorem advance_blank (h : trimmed? line = some "") :
    r.advance count (.line line :: rest) = r.advance (count + 1) rest := by
  rw [advance, Line.ofBytes_blank h]

variable {text : String} (h : trimmed? line = some text) (hne : text ≠ "")

include h hne

theorem advance_malformed {cause : TimeOfDay.Malformed} (hparse : TimeOfDay.parse text = .error cause) :
    r.advance count (.line line :: rest) =
      r.fail (.malformed r.name (count + 1) ⟨text, cause.defect⟩) (count + 1) rest := by
  rw [advance, Line.ofBytes_malformed h hne hparse]

variable {t : TimeOfDay} (hparse : TimeOfDay.parse text = .ok t)

include hparse

theorem advance_outOfOrder {later : TimeOfDay} (hlast : r.last.filter (t < ·) = some later) :
    r.advance count (.line line :: rest) = r.fail (.outOfOrder r.name (count + 1) later t) (count + 1) rest := by
  rw [advance, Line.ofBytes_time h hne hparse]
  simp only [hlast]

theorem advance_time (hlast : r.last.filter (t < ·) = none) :
    r.advance count (.line line :: rest) =
      (some (.ok t), { r with lineCount := count + 1, pending := rest, last := some t }) := by
  rw [advance, Line.ofBytes_time h hne hparse]
  simp only [hlast]

end Advance

/-- A reader in front of lines, `count` lines having been read and `last` being the last time answered. -/
def ofLines (name : String) (count : Nat) (last : Option TimeOfDay) (ls : List (List UInt8)) : Reader where
  name := name
  pending := ls.map .line
  lineCount := count
  last := last

/-- What is left to read and the count of lines are passed to `advance`; those of the reader do not matter. -/
theorem advance_with (r : Reader) (stale : List LineRead) (staleCount count : Nat) (pending : List LineRead) :
    { r with pending := stale, lineCount := staleCount }.advance count pending = r.advance count pending := by
  induction pending generalizing count with
  | nil => rfl
  | cons read rest ih =>
    cases read with
    | ended => rfl
    | fault text => rfl
    | line bytes =>
      unfold advance
      cases Line.ofBytes bytes with
      | blank => exact ih _
      | notText => rfl
      | malformed cause => rfl
      | time t => rfl

variable {name : String} {count : Nat} {last : Option TimeOfDay} {line : List UInt8} {ls : List (List UInt8)}

/-- A call with a blank line in front is the call with that line gone. -/
theorem next_ofLines_blank (h : trimmed? line = some "") :
    (ofLines name count last (line :: ls)).next = (ofLines name (count + 1) last ls).next := by
  show (ofLines name count last (line :: ls)).advance count (.line line :: ls.map .line) = _
  rw [advance_blank _ _ _ h]
  exact advance_with (ofLines name (count + 1) last ls) _ _ _ _

theorem calls_ofLines_blank (h : trimmed? line = some "") (calls : Nat) :
    (ofLines name count last (line :: ls)).calls (calls + 1) =
      (ofLines name (count + 1) last ls).calls (calls + 1) := by
  rw [calls_succ, calls_succ, next_ofLines_blank h]

theorem next_ofLines_notText (h : trimmed? line = none) :
    (ofLines name count last (line :: ls)).next =
      (ofLines name count last (line :: ls)).fail
        (.unreadable name (count + 1) "stream did not contain valid UTF-8") count (ls.map .line) :=
  advance_notText (ofLines name count last (line :: ls)) count _ h

theorem next_ofLines_malformed {text : String} (h : trimmed? line = some text) (hne : text ≠ "")
    {cause : TimeOfDay.Malformed} (hparse : TimeOfDay.parse text = .error cause) :
    (ofLines name count last (line :: ls)).next =
      (ofLines name count last (line :: ls)).fail (.malformed name (count + 1) ⟨text, cause.defect⟩) (count + 1)
        (ls.map .line) :=
  advance_malformed (ofLines name count last (line :: ls)) count _ h hne hparse

theorem next_ofLines_outOfOrder {text : String} (h : trimmed? line = some text) (hne : text ≠ "") {t : TimeOfDay}
    (hparse : TimeOfDay.parse text = .ok t) {later : TimeOfDay} (hlast : last.filter (t < ·) = some later) :
    (ofLines name count last (line :: ls)).next =
      (ofLines name count last (line :: ls)).fail (.outOfOrder name (count + 1) later t) (count + 1)
        (ls.map .line) :=
  advance_outOfOrder (ofLines name count last (line :: ls)) count _ h hne hparse hlast

theorem next_ofLines_time {text : String} (h : trimmed? line = some text) (hne : text ≠ "") {t : TimeOfDay}
    (hparse : TimeOfDay.parse text = .ok t) (hlast : last.filter (t < ·) = none) :
    (ofLines name count last (line :: ls)).next = (some (.ok t), ofLines name (count + 1) (some t) ls) :=
  advance_time (ofLines name count last (line :: ls)) count _ h hne hparse hlast

/-! ### Many calls -/

/-- The calls up to the first that answers nothing. -/
def throughEnd (answers : List (Answer × Nat)) : List (Answer × Nat) :=
  answers.takeWhile (·.1.isSome) ++ (answers.dropWhile (·.1.isSome)).take 1

theorem throughEnd_some (a : Except Fault TimeOfDay) (count : Nat) (rest : List (Answer × Nat)) :
    throughEnd ((some a, count) :: rest) = (some a, count) :: throughEnd rest := rfl

/-- A call that fails is followed by one that answers nothing and counts no line. -/
theorem throughEnd_calls_of_fail {r r' : Reader} {fault : Fault} {pending : List LineRead}
    (h : r.next = r'.fail fault count pending) (calls : Nat) :
    throughEnd (r.calls (calls + 2)) = [(some (.error fault), count), (none, count)] := by
  have hfailed : (r'.fail fault count pending).2.failed = true := rfl
  rw [calls_succ, h, calls_succ, next_of_failed hfailed]
  rfl

/-- **The calls on given lines** are the transcript of the lines, if there is a call for each line and one more. -/
theorem throughEnd_calls_ofLines {calls : Nat} (h : ls.length < calls) :
    throughEnd ((ofLines name count last ls).calls calls) = transcript name count last ls := by
  induction ls generalizing count last calls with
  | nil =>
    obtain ⟨more, rfl⟩ := Nat.exists_eq_add_one_of_ne_zero (Nat.ne_of_gt h)
    rw [calls_succ]
    rfl
  | cons line ls ih =>
    obtain ⟨more, rfl⟩ : ∃ more, calls = more + 2 :=
      Nat.exists_eq_add_of_le' (Nat.lt_of_le_of_lt (Nat.succ_le_succ (Nat.zero_le ls.length)) h)
    have hmore : ls.length < more + 1 := Nat.lt_of_succ_lt_succ h
    rcases line_cases line with htext | htext | ⟨text, cause, htext, hne, hparse⟩ | ⟨text, t, htext, hne, hparse⟩
    · rw [transcript_notText _ _ _ _ htext]
      exact throughEnd_calls_of_fail (next_ofLines_notText htext) more
    · -- no call is spent on this line, so one more is left than the other lines need
      rw [transcript_blank _ _ _ _ htext, calls_ofLines_blank htext]
      exact ih (Nat.lt_succ_of_lt hmore)
    · rw [transcript_malformed _ _ _ _ htext hne hparse]
      exact throughEnd_calls_of_fail (next_ofLines_malformed htext hne hparse) more
    · cases hlast : last.filter (t < ·) with
      | some later =>
        rw [transcript_outOfOrder _ _ _ htext hne hparse hlast]
        exact throughEnd_calls_of_fail (next_ofLines_outOfOrder htext hne hparse hlast) more
      | none =>
        rw [transcript_time _ _ _ htext hne hparse hlast, calls_succ, next_ofLines_time htext hne hparse hlast,
          throughEnd_some, ih hmore]
        rfl

/-- As many calls as can answer anything are enough. -/
theorem throughEnd_allCalls_ofLines :
    throughEnd (ofLines name count last ls).allCalls = transcript name count last ls := by
  have hcalls : ls.length < (ofLines name count last ls).pending.length + 1 := by simp [ofLines]
  exact throughEnd_calls_ofLines hcalls

/-- A reader at the start of a source without faults is one in front of the lines of all its bytes. -/
theorem ofSource_eq_ofLines (name : String) {source : Source} (h : ∀ d ∈ source, d.isData = true) :
    ofSource name source = ofLines name 0 none (lines source.data) := by
  rw [ofSource, reads_eq_lines h]
  rfl

/-- **Reading is line by line**: however a log's bytes are divided into chunks, with interruptions anywhere, calling a
reader until it answers nothing gives the transcript of the lines of all its bytes, with the count of lines read after
each call. -/
theorem callsToEnd_ofSource (name : String) {source : Source} (h : ∀ d ∈ source, d.isData = true) :
    (ofSource name source).callsToEnd = transcript name 0 none (lines source.data) := by
  rw [ofSource_eq_ofLines name h]
  exact throughEnd_allCalls_ofLines

/-- A chunk may end between a carriage return and the line feed and inside the blank U+0085. -/
theorem callsToEnd_of_cut_line_end :
    let source : Source :=
      [.bytes "00:00:01.000000\r".toUTF8.data.toList, .interrupted, .bytes [], .bytes [10, 0xC2],
        .bytes [0x85, 10, 120]]
    (∀ d ∈ source, d.isData = true) ∧
      (ofSource "commands" source).callsToEnd =
        [(some (.ok ⟨1, 0, by decide, by decide⟩), 1), (some (.error (.malformed "commands" 3 ⟨"x", .length⟩)), 3),
          (none, 3)] := by
  intro source
  have h : ∀ d ∈ source, d.isData = true := by decide
  refine ⟨h, (callsToEnd_ofSource "commands" h).trans ?_⟩
  decide

end Reader

end LogCorrelation.Log
