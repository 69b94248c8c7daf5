import LogCorrelation.Proofs.Log.LineByLine
import LogCorrelation.Proofs.Log.Transcript
import LogCorrelation.Proofs.TimeOfDay.Order
import Mathlib.Logic.Function.Iterate

/-!
# Proofs.Log.Calls — any number of calls on any source

A source may end and go on, even within a line, and it may fail.  A call on a reader reads blank lines and one line more,
and `Verdict` says what it answers for that one, given the lines read and the last time answered before.  So an end of
the log costs one answer and changes nothing else, and the first fault is the last thing that a reader does.

The induction is over the calls.  It carries `Tracks`, which reads the state of a reader off its answers so far and off
what is left of its source.

* `advances`: one call, by the answers of the source that it takes.
* `moves_next`: what any call does to the state, before a fault or after one.
* `Tracks.goesOn`, `standsStill_of_failed`: what the call behind some others does, before a fault and after one.
* `calls_keep_state`: any number of calls on any source.
-/

namespace LogCorrelation.Log

/-! ### What calls have answered -/

/-- The time that is answered. -/
def answeredTime? : Answer → Option TimeOfDay
  | some (.ok t) => some t
  | _ => none

/-- The fault that is answered. -/
def answeredFault? : Answer → Option Fault
  | some (.error fault) => some fault
  | _ => none

/-- The times answered by calls. -/
def answeredTimes (calls : List (Answer × Nat)) : List TimeOfDay := calls.filterMap (answeredTime? ·.1)

/-- The faults answered by calls. -/
def answeredFaults (calls : List (Answer × Nat)) : List Fault := calls.filterMap (answeredFault? ·.1)

theorem answeredTimes_concat (calls : List (Answer × Nat)) (call : Answer × Nat) :
    answeredTimes (calls ++ [call]) = answeredTimes calls ++ (answeredTime? call.1).toList := by
  cases h : answeredTime? call.1 <;> simp [answeredTimes, h]

theorem answeredFaults_concat (calls : List (Answer × Nat)) (call : Answer × Nat) :
    answeredFaults (calls ++ [call]) = answeredFaults calls ++ (answeredFault? call.1).toList := by
  cases h : answeredFault? call.1 <;> simp [answeredFaults, h]

theorem answeredFault?_eq_some_iff {answer : Answer} {fault : Fault} :
    answeredFault? answer = some fault ↔ answer = some (.error fault) := by
  rcases answer with _ | _ | _ <;> simp [answeredFault?]

/-- Whether a fault is where a reader stands after `count` lines: at the last line read, or at the next one if that could
not be read. -/
def Fault.IsAt (count : Nat) : Fault → Prop
  | .unreadable _ line _ => line = count + 1
  | .malformed _ line _ | .outOfOrder _ line _ _ => line = count
  | .notOpened .. => False

/-- The answers of one reader to some calls, each with the number of lines read after it. -/
structure Consistent (calls : List (Answer × Nat)) : Prop where
  times_ordered : (answeredTimes calls).Pairwise (· ≤ ·)
  counts_ordered : (calls.map (·.2)).Pairwise (· ≤ ·)
  fault_once : (answeredFaults calls).length ≤ 1
  fault_isAt : ∀ fault count, (some (.error fault), count) ∈ calls → fault.IsAt count

theorem consistent_nil : Consistent [] where
  times_ordered := .nil
  counts_ordered := .nil
  fault_once := Nat.zero_le 1
  fault_isAt fault count h := absurd h (by simp)

/-- One more call keeps this if it fits to the last time, to the lines read and to the faults before. -/
theorem Consistent.concat {calls : List (Answer × Nat)} (h : Consistent calls) {answer : Answer} {count : Nat}
    (htime : ∀ t, answeredTime? answer = some t → ∀ last ∈ (answeredTimes calls).getLast?, last ≤ t)
    (hcount : ∀ call ∈ calls, call.2 ≤ count)
    (hfault : ∀ fault, answer = some (.error fault) → answeredFaults calls = [] ∧ fault.IsAt count) :
    Consistent (calls ++ [(answer, count)]) where
  times_ordered := by
    rw [answeredTimes_concat, List.pairwise_append]
    refine ⟨h.times_ordered, by cases answeredTime? answer <;> simp, ?_⟩
    intro a ha t ht
    obtain ⟨last, hlast⟩ : ∃ last, (answeredTimes calls).getLast? = some last :=
      ⟨_, List.getLast?_eq_some_getLast (List.ne_nil_of_mem ha)⟩
    have hat : a ≤ last := TimeOfDay.le_of_mem_getLast? h.times_ordered ha hlast
    exact hat.trans (htime t (Option.mem_toList.mp ht) last hlast)
  counts_ordered := by
    rw [List.map_append, List.pairwise_append]
    refine ⟨h.counts_ordered, List.pairwise_singleton _ _, ?_⟩
    intro a ha b hb
    obtain ⟨call, hcall, rfl⟩ := List.mem_map.mp ha
    obtain rfl : b = count := List.mem_singleton.mp hb
    exact hcount call hcall
  fault_once := by
    rw [answeredFaults_concat]
    cases hf : answeredFault? answer with
    | none => simpa using h.fault_once
    | some fault => simp [(hfault fault (answeredFault?_eq_some_iff.mp hf)).1]
  fault_isAt fault count' hmem := by
    rcases List.mem_append.mp hmem with hmem | hmem
    · exact h.fault_isAt fault count' hmem
    · obtain ⟨rfl, rfl⟩ := Prod.mk.inj (List.mem_singleton.mp hmem)
      exact (hfault fault rfl).2

/-! ### One call -/

/-- What is answered for the line that ends a call, and how many lines have been read then; before it `count` lines have
been read, and `last` is the last time answered. -/
inductive Verdict (name : String) (count : Nat) (last : Option TimeOfDay) : LineRead → Answer → Nat → Prop
  | ended : Verdict name count last .ended none count
  | fault (text : String) :
    Verdict name count last (.fault text) (some (.error (.unreadable name (count + 1) text))) count
  | notText {line : List UInt8} (h : trimmed? line = none) :
    Verdict name count last (.line line)
      (some (.error (.unreadable name (count + 1) "stream did not contain valid UTF-8"))) count
  | malformed {line : List UInt8} {text : String} {cause : TimeOfDay.Malformed} (h : trimmed? line = some text)
    (hne : text ≠ "") (hparse : TimeOfDay.parse text = .error cause) :
    Verdict name count last (.line line) (some (.error (.malformed name (count + 1) ⟨text, cause.defect⟩))) (count + 1)
  | outOfOrder {line : List UInt8} {text : String} {t previous : TimeOfDay} (h : trimmed? line = some text)
    (hparse : TimeOfDay.parse text = .ok t) (hlast : last = some previous) (hlt : t < previous) :
    Verdict name count last (.line line) (some (.error (.outOfOrder name (count + 1) previous t))) (count + 1)
  | time {line : List UInt8} {text : String} {t : TimeOfDay} (h : trimmed? line = some text)
    (hparse : TimeOfDay.parse text = .ok t) (hle : ∀ previous ∈ last, previous ≤ t) :
    Verdict name count last (.line line) (some (.ok t)) (count + 1)

namespace Verdict

variable {name : String} {count count' : Nat} {last : Option TimeOfDay} {read : LineRead} {answer : Answer}

theorem count_le (h : Verdict name count last read answer count') : count ≤ count' := by
  cases h with
  | ended | fault | notText => exact Nat.le_refl count
  | malformed | outOfOrder | time => exact Nat.le_succ count

theorem isAt {fault : Fault} (h : Verdict name count last read (some (.error fault)) count') : fault.IsAt count' := by
  cases h <;> rfl

theorem le_of_time {t : TimeOfDay} (h : Verdict name count last read answer count') (ht : answeredTime? answer = some t) :
    ∀ previous ∈ last, previous ≤ t := by
  cases h with
  | time _ _ hle =>
    obtain rfl := Option.some.inj ht
    exact hle
  | ended | fault | notText | malformed | outOfOrder => exact absurd ht (by simp [answeredTime?])

end Verdict

/-- Whether a line is read that holds blanks only. -/
def LineRead.isBlank : LineRead → Bool
  | .line bytes => isBlankLine bytes
  | .ended | .fault _ => false

namespace Reader

/-- A call takes blank lines and one answer more from `pending`, and answers for that one. -/
structure Advances (r : Reader) (count : Nat) (pending : List LineRead) (blanks : Nat) (answer : Answer)
    (after : Reader) : Prop where
  isBlank : ∀ i < blanks, ∃ read, pending[i]? = some read ∧ read.isBlank = true
  verdict : Verdict r.name (count + blanks) r.last (pending[blanks]?.getD .ended) answer after.lineCount
  name_eq : after.name = r.name
  pending_eq : after.pending = pending.drop (blanks + 1)
  last_eq : after.last = (answeredTime? answer).or r.last
  failed_eq : after.failed = (r.failed || (answeredFault? answer).isSome)

section Advances

variable (r : Reader) (count : Nat) (read : LineRead) (rest : List LineRead)

/-- A fault for the first answer of the source. -/
theorem advances_fail {fault : Fault} {count' : Nat}
    (h : Verdict r.name count r.last read (some (.error fault)) count') :
    Advances r count (read :: rest) 0 (r.fail fault count' rest).1 (r.fail fault count' rest).2 where
  isBlank i hi := absurd hi (Nat.not_lt_zero i)
  verdict := h
  name_eq := rfl
  pending_eq := rfl
  last_eq := rfl
  failed_eq := (Bool.or_true _).symm

/-- One blank line more. -/
theorem Advances.blank {r : Reader} {count : Nat} {rest : List LineRead} {blanks : Nat} {answer : Answer} {after : Reader}
    (h : Advances r (count + 1) rest blanks answer after) {line : List UInt8} (hline : trimmed? line = some "") :
    Advances r count (.line line :: rest) (blanks + 1) answer after where
  isBlank i hi := by
    cases i with
    | zero => exact ⟨.line line, rfl, by simp [LineRead.isBlank, isBlankLine, hline]⟩
    | succ i => exact h.isBlank i (Nat.lt_of_succ_lt_succ hi)
  verdict := by
    rw [← Nat.add_assoc, Nat.add_right_comm]
    exact h.verdict
  name_eq := h.name_eq
  pending_eq := h.pending_eq
  last_eq := h.last_eq
  failed_eq := h.failed_eq

theorem isBlank_eq_false {line : List UInt8} (h : trimmed? line ≠ some "") : (LineRead.line line).isBlank = false := by
  simpa [LineRead.isBlank, isBlankLine] using h

/-- **One call** takes all blank lines in front and the answer behind them. -/
theorem advances (pending : List LineRead) :
    Advances r count pending (pending.takeWhile LineRead.isBlank).length (r.advance count pending).1
      (r.advance count pending).2 := by
  have hnone (ps : List LineRead) : ∀ i < 0, ∃ read, ps[i]? = some read ∧ read.isBlank = true :=
    fun i hi => absurd hi (Nat.not_lt_zero i)
  induction pending generalizing count with
  | nil => exact ⟨hnone _, .ended, rfl, rfl, rfl, (Bool.or_false _).symm⟩
  | cons read rest ih =>
    cases read with
    | ended => exact ⟨hnone _, .ended, rfl, rfl, rfl, (Bool.or_false _).symm⟩
    | fault text => exact advances_fail r count _ rest (.fault text)
    | line line =>
      rcases line_cases line with htext | htext | ⟨text, cause, htext, hne, hparse⟩ | ⟨text, t, htext, hne, hparse⟩
      · have hblank : (LineRead.line line).isBlank = false := isBlank_eq_false (by simp [htext])
        rw [advance_notText _ _ _ htext, List.takeWhile_cons_of_neg (by simp [hblank])]
        exact advances_fail r count _ rest (.notText htext)
      · have hblank : (LineRead.line line).isBlank = true := by simp [LineRead.isBlank, isBlankLine, htext]
        rw [advance_blank _ _ _ htext, List.takeWhile_cons_of_pos hblank]
        exact (ih (count + 1)).blank htext
      · have hblank : (LineRead.line line).isBlank = false := isBlank_eq_false (by simp [htext, hne])
        rw [advance_malformed _ _ _ htext hne hparse, List.takeWhile_cons_of_neg (by simp [hblank])]
        exact advances_fail r count _ rest (.malformed htext hne hparse)
      · have hblank : (LineRead.line line).isBlank = false := isBlank_eq_false (by simp [htext, hne])
        rw [List.takeWhile_cons_of_neg (by simp [hblank])]
        cases hlast : r.last.filter (t < ·) with
        | some later =>
          obtain ⟨hsome, hlt⟩ := Option.filter_eq_some_iff.mp hlast
          rw [advance_outOfOrder _ _ _ htext hne hparse hlast]
          exact advances_fail r count _ rest (.outOfOrder htext hparse hsome (of_decide_eq_true hlt))
        | none =>
          have hle : ∀ previous ∈ r.last, previous ≤ t := by
            intro previous hprevious
            simpa using Option.filter_eq_none_iff.mp hlast previous hprevious
          rw [advance_time _ _ _ htext hne hparse hlast]
          exact ⟨hnone _, .time htext hparse hle, rfl, rfl, rfl, (Bool.or_false _).symm⟩

end Advances

/-- What a call does to the state of a reader, before a fault or after one. -/
structure Moves (r : Reader) (answer : Answer) (after : Reader) : Prop where
  name_eq : after.name = r.name
  last_eq : after.last = (answeredTime? answer).or r.last
  failed_eq : after.failed = (r.failed || (answeredFault? answer).isSome)
  count_le : r.lineCount ≤ after.lineCount
  le_of_time : ∀ t, answeredTime? answer = some t → ∀ previous ∈ r.last, previous ≤ t
  isAt_of_fault : ∀ fault, answer = some (.error fault) → r.failed = false ∧ fault.IsAt after.lineCount

section Next

variable {r : Reader}

/-- Before a fault a call advances. -/
theorem advances_next (h : r.failed = false) :
    Advances r r.lineCount r.pending (r.pending.takeWhile LineRead.isBlank).length r.next.1 r.next.2 := by
  have hnext : r.next = r.advance r.lineCount r.pending := by
    rw [next, h]
    rfl
  rw [hnext]
  exact advances r r.lineCount r.pending

variable (r) in
theorem moves_next : Moves r r.next.1 r.next.2 := by
  cases hfailed : r.failed with
  | true =>
    rw [next_of_failed hfailed]
    refine ⟨rfl, rfl, (Bool.or_false _).symm, Nat.le_refl _, fun t ht => ?_, fun fault hfault => ?_⟩
    · exact absurd ht (by simp [answeredTime?])
    · exact absurd hfault (by simp)
  | false =>
    obtain ⟨-, hverdict, hname, -, hlast, hfail⟩ := advances_next hfailed
    refine ⟨hname, hlast, hfail, ?_, fun t => hverdict.le_of_time, fun fault hfault => ⟨hfailed, ?_⟩⟩
    · exact (Nat.le_add_right _ _).trans hverdict.count_le
    · rw [hfault] at hverdict
      exact hverdict.isAt

end Next

/-! ### Many calls -/

/-- The reader after a number of calls. -/
def after (r : Reader) (n : Nat) : Reader := (fun r => r.next.2)^[n] r

/-- The answer to the call that follows a number of calls. -/
def answer (r : Reader) (n : Nat) : Answer := (r.after n).next.1

/-- The blank lines in front of a reader. -/
def blanksInFront (r : Reader) : Nat := (r.pending.takeWhile LineRead.isBlank).length

theorem after_succ (r : Reader) (n : Nat) : r.after (n + 1) = (r.after n).next.2 := Function.iterate_succ_apply' _ n r

/-- One call more is one more at the end. -/
theorem calls_succ_eq_concat (r : Reader) (n : Nat) :
    r.calls (n + 1) = r.calls n ++ [(r.answer n, (r.after (n + 1)).lineCount)] := by
  induction n generalizing r with
  | zero => rw [calls_succ]; rfl
  | succ n ih =>
    have hanswer : r.next.2.answer n = r.answer (n + 1) := rfl
    have hafter : r.next.2.after (n + 1) = r.after (n + 2) := rfl
    rw [calls_succ, ih, hanswer, hafter, calls_succ, List.cons_append]

/-- How many lines a call reads, or tries to. -/
def readsOfCall (r : Reader) : Nat := if r.failed then 0 else r.blanksInFront + 1

/-- How many lines have been read after a number of calls, or tried to. -/
def readsMade (r : Reader) : Nat → Nat
  | 0 => 0
  | n + 1 => r.readsMade n + (r.after n).readsOfCall

/-- **Call `n` goes on** with the lines behind those of the calls before: it reads blank lines and one more, and answers
for that one, which it checks against the last time that has been answered at all. -/
structure GoesOn (r : Reader) (source : Source) (made : Nat → Nat) (n blanks : Nat) : Prop where
  made_succ : made (n + 1) = made n + blanks + 1
  isBlank : ∀ i < blanks, (source.read (made n + i)).isBlank = true
  verdict : Verdict r.name ((r.after n).lineCount + blanks) (answeredTimes (r.calls n)).getLast?
    (source.read (made n + blanks)) (r.answer n) (r.after (n + 1)).lineCount

/-- **Call `n` stands still**: it answers nothing, reads nothing and changes nothing. -/
structure StandsStill (r : Reader) (made : Nat → Nat) (n : Nat) : Prop where
  answer_eq : r.answer n = none
  after_succ_eq : r.after (n + 1) = r.after n
  made_succ : made (n + 1) = made n

/-- The state of a reader after `n` calls, read off its answers and off what is left of its source. -/
structure Tracks (r : Reader) (source : Source) (n : Nat) : Prop where
  name_eq : (r.after n).name = r.name
  pending_eq : (r.after n).pending = (source.rest (r.readsMade n)).reads
  last_eq : (r.after n).last = (answeredTimes (r.calls n)).getLast?
  failed_iff : (r.after n).failed = true ↔ answeredFaults (r.calls n) ≠ []
  count_le : ∀ call ∈ r.calls n, call.2 ≤ (r.after n).lineCount
  consistent : Consistent (r.calls n)

theorem tracks_zero (name : String) (source : Source) : Tracks (ofSource name source) source 0 where
  name_eq := rfl
  pending_eq := rfl
  last_eq := rfl
  failed_iff := by simp [after, ofSource, answeredFaults]
  count_le call h := absurd h (by simp)
  consistent := consistent_nil

section Step

variable {r : Reader} {source : Source} {n : Nat}

/-- After a fault a call stands still. -/
theorem standsStill_of_failed (h : (r.after n).failed = true) : StandsStill r r.readsMade n where
  answer_eq := by rw [answer, next_of_failed h]
  after_succ_eq := by rw [after_succ, next_of_failed h]
  made_succ := by rw [readsMade, readsOfCall, if_pos h]; rfl

theorem moves_after (r : Reader) (n : Nat) : Moves (r.after n) (r.answer n) (r.after (n + 1)) := by
  rw [after_succ]
  exact moves_next _

/-- A reader that has not failed has answered no fault. -/
theorem Tracks.answeredFaults_eq_nil (h : Tracks r source n) (hlive : (r.after n).failed = false) :
    answeredFaults (r.calls n) = [] := by
  by_contra hne
  exact absurd (hlive.symm.trans (h.failed_iff.mpr hne)) Bool.false_ne_true

/-- One call more, if what is left of the source is told as well. -/
theorem Tracks.succ (h : Tracks r source n)
    (hpending : (r.after (n + 1)).pending = (source.rest (r.readsMade (n + 1))).reads) : Tracks r source (n + 1) := by
  obtain ⟨hname, hlast, hfailed, hle, htime, hfault⟩ := moves_after r n
  have hcount : ∀ call ∈ r.calls n, call.2 ≤ (r.after (n + 1)).lineCount :=
    fun call hcall => (h.count_le call hcall).trans hle
  refine ⟨hname.trans h.name_eq, hpending, ?_, ?_, ?_, ?_⟩
  · rw [hlast, h.last_eq, calls_succ_eq_concat, answeredTimes_concat, List.getLast?_append]
    cases answeredTime? (r.answer n) <;> rfl
  · rw [hfailed, Bool.or_eq_true, h.failed_iff, calls_succ_eq_concat, answeredFaults_concat]
    cases answeredFault? (r.answer n) <;> simp
  · intro call hcall
    rw [calls_succ_eq_concat] at hcall
    rcases List.mem_append.mp hcall with hcall | hcall
    · exact hcount call hcall
    · exact Nat.le_of_eq (congrArg Prod.snd (List.mem_singleton.mp hcall))
  · rw [calls_succ_eq_concat]
    refine h.consistent.concat (fun t ht => ?_) hcount (fun fault hanswer => ?_)
    · rw [← h.last_eq]
      exact htime t ht
    · obtain ⟨hlive, hat⟩ := hfault fault hanswer
      exact ⟨h.answeredFaults_eq_nil hlive, hat⟩

theorem Tracks.of_standsStill (h : Tracks r source n) (hstill : StandsStill r r.readsMade n) :
    Tracks r source (n + 1) :=
  h.succ (by rw [hstill.after_succ_eq, hstill.made_succ, h.pending_eq])

/-! #### Before a fault -/

variable (hlive : (r.after n).failed = false)

include hlive

theorem advances_after :
    Advances (r.after n) (r.after n).lineCount (r.after n).pending (r.after n).blanksInFront (r.answer n)
      (r.after (n + 1)) := by
  rw [after_succ]
  exact advances_next hlive

theorem readsMade_succ : r.readsMade (n + 1) = r.readsMade n + (r.after n).blanksInFront + 1 := by
  rw [readsMade, readsOfCall, hlive]
  rfl

/-- Before a fault a call goes on. -/
theorem Tracks.goesOn (h : Tracks r source n) : GoesOn r source r.readsMade n (r.after n).blanksInFront := by
  have hcall := advances_after hlive
  have hread (i : Nat) : source.read (r.readsMade n + i) = (r.after n).pending[i]?.getD .ended := by
    rw [Source.read_eq, h.pending_eq, Source.reads_rest, List.getElem?_drop]
  refine ⟨readsMade_succ hlive, fun i hi => ?_, ?_⟩
  · obtain ⟨read, hsome, hblank⟩ := hcall.isBlank i hi
    rw [hread, hsome]
    exact hblank
  · rw [hread, ← h.last_eq, ← h.name_eq]
    exact hcall.verdict

theorem Tracks.of_goesOn (h : Tracks r source n) : Tracks r source (n + 1) := by
  apply h.succ
  rw [(advances_after hlive).pending_eq, h.pending_eq, Source.reads_rest, Source.reads_rest, List.drop_drop,
    readsMade_succ hlive, Nat.add_assoc]

end Step

theorem tracks_ofSource (name : String) (source : Source) (n : Nat) : Tracks (ofSource name source) source n := by
  induction n with
  | zero => exact tracks_zero name source
  | succ n ih =>
    cases hfailed : ((ofSource name source).after n).failed with
    | true => exact ih.of_standsStill (standsStill_of_failed hfailed)
    | false => exact ih.of_goesOn hfailed

/-- **The state of a reader over any calls on any source.**  The times answered never decrease, nor do the numbers of
lines read; there is one fault at most, and it is where the reader stands.  Up to it every call goes on with the lines
behind those that were read before, also after an end of the log, and checks them against the last time answered; after
it every call answers nothing, reads nothing and changes nothing. -/
theorem calls_keep_state (name : String) (source : Source) :
    let r := ofSource name source
    (∀ n, r.calls (n + 1) = r.calls n ++ [(r.answer n, (r.after (n + 1)).lineCount)]) ∧
      (∀ n, Consistent (r.calls n)) ∧
      ∃ made : Nat → Nat, made 0 = 0 ∧ (∀ n, (r.after n).pending = (source.rest (made n)).reads) ∧
        (∀ n, answeredFaults (r.calls n) = [] → ∃ blanks, GoesOn r source made n blanks) ∧
        ∀ n, answeredFaults (r.calls n) ≠ [] → StandsStill r made n := by
  intro r
  have htracks : ∀ n, Tracks r source n := tracks_ofSource name source
  refine ⟨calls_succ_eq_concat r, fun n => (htracks n).consistent, r.readsMade, rfl, fun n => (htracks n).pending_eq,
    fun n hnone => ?_, fun n hsome => standsStill_of_failed ((htracks n).failed_iff.mpr hsome)⟩
  have hlive : (r.after n).failed = false :=
    Bool.eq_false_iff.mpr fun hfailed => (htracks n).failed_iff.mp hfailed hnone
  exact ⟨_, (htracks n).goesOn hlive⟩

/-- A log that ends within a line, ends again and goes on with the line end: the next time is checked against the one
before the ends.  The line behind the fault is never read. -/
theorem calls_keep_state_across_end :
    let source : Source :=
      [.bytes "00:00:02.000000".toUTF8.data.toList, .endOfFile, .endOfFile, .interrupted,
        .bytes "\n00:00:01.000000\n00:00:05.000000\n".toUTF8.data.toList]
    let r := ofSource "commands" source
    let early : TimeOfDay := ⟨1, 0, by decide, by decide⟩
    let late : TimeOfDay := ⟨2, 0, by decide, by decide⟩
    (answeredFaults (r.calls 2) = [] ∧ answeredFaults (r.calls 3) ≠ []) ∧
      r.calls 4 =
        [(some (.ok late), 1), (none, 1), (some (.error (.outOfOrder "commands" 3 late early)), 3), (none, 3)] ∧
      Consistent (r.calls 4) ∧
      ∃ made blanks, GoesOn r source made 2 blanks ∧ StandsStill r made 3 := by
  intro source r early late
  have hnone : answeredFaults (r.calls 2) = [] := by decide
  have hsome : answeredFaults (r.calls 3) ≠ [] := by decide
  obtain ⟨-, hconsistent, made, -, -, hgoesOn, hstandsStill⟩ := calls_keep_state "commands" source
  obtain ⟨blanks, hblanks⟩ := hgoesOn 2 hnone
  exact ⟨⟨hnone, hsome⟩, by decide, hconsistent 4, made, blanks, hblanks, hstandsStill 3 hsome⟩

end Reader

end LogCorrelation.Log
