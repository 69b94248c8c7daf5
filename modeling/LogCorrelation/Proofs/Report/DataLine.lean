import LogCorrelation.Proofs.Report.FirstFilled
import LogCorrelation.Proofs.TimeOfDay.ElapsedText
import LogCorrelation.Report.DataLine

/-!
# Proofs.Report.DataLine — the first line is read back

The first line of the plain text lists counts and latencies between brackets.  No item has a comma or a bracket in it, so
the lists are taken apart as they were put together, and every item is read as what it was written for.

* `separated_intercalate`, `readBracketed_bracketed`: lists are taken apart.
* `readDataLine_plain`: the first line of a report on measured intervals.
-/

namespace LogCorrelation.Report

open Intervals (Feed)

/-! ### Lists -/

theorem separated_cons {c : Char} (h : c ≠ ',') {cs item : List Char} {items : List (List Char)}
    (hcs : separated cs = item :: items) : separated (c :: cs) = (c :: item) :: items := by
  rw [separated, hcs]
  rintro rest rfl
  exact absurd rfl h

/-- An item ends at the comma. -/
theorem separated_append {item : List Char} (h : ',' ∉ item) (rest : List Char) :
    separated (item ++ ',' :: ' ' :: rest) = item :: separated rest := by
  induction item with
  | nil => rfl
  | cons c cs ih =>
    obtain ⟨hc, hcs⟩ := not_or.mp (mt List.mem_cons.mpr h)
    exact separated_cons (Ne.symm hc) (ih hcs)

theorem separated_of_not_mem {item : List Char} (h : ',' ∉ item) : separated item = [item] := by
  induction item with
  | nil => rfl
  | cons c cs ih =>
    obtain ⟨hc, hcs⟩ := not_or.mp (mt List.mem_cons.mpr h)
    exact separated_cons (Ne.symm hc) (ih hcs)

/-- Items without commas are taken apart as they were joined. -/
theorem separated_intercalate {items : List (List Char)} (hne : items ≠ []) (h : ∀ item ∈ items, ',' ∉ item) :
    separated ([',', ' '].intercalate items) = items := by
  match items with
  | [] => exact absurd rfl hne
  | [item] =>
    rw [List.intercalate_singleton]
    exact separated_of_not_mem (h item (List.mem_singleton_self item))
  | item :: next :: items =>
    have hrest := separated_intercalate (List.cons_ne_nil next items) fun other hother =>
      h other (List.mem_cons_of_mem _ hother)
    rw [List.intercalate_cons_cons, List.append_assoc]
    show separated (item ++ ',' :: ' ' :: [',', ' '].intercalate (next :: items)) = _
    rw [separated_append (h item List.mem_cons_self), hrest]

/-- A bracketed list is read up to its closing bracket. -/
theorem readBracketed_bracketed (items : List String) (hne : ∀ item ∈ items, item.toList ≠ [])
    (hcomma : ∀ item ∈ items, ',' ∉ item.toList) (hclose : ∀ item ∈ items, ']' ∉ item.toList) (rest : List Char) :
    readBracketed ((bracketed items).toList ++ rest) = some (items.map (·.toList), rest) := by
  let inner := [',', ' '].intercalate (items.map (·.toList))
  have htext : (bracketed items).toList ++ rest = '[' :: (inner ++ ']' :: rest) := by
    simp only [bracketed, String.toList_append, String.toList_intercalate, List.append_assoc]
    rfl
  have hinner : ∀ c ∈ inner, decide (c ≠ ']') = true := by
    intro c hc
    rw [decide_eq_true_iff]
    rintro rfl
    obtain hmem | ⟨item, hitem, hmem⟩ := mem_intercalate hc
    · exact absurd hmem (by decide)
    · obtain ⟨s, hs, rfl⟩ := List.mem_map.mp hitem
      exact hclose s hs hmem
  have hdrop : (inner ++ ']' :: rest).dropWhile (· ≠ ']') = ']' :: rest := by
    rw [List.dropWhile_append_of_pos hinner, List.dropWhile_cons_of_neg (by simp)]
  have htake : (inner ++ ']' :: rest).takeWhile (· ≠ ']') = inner := by
    rw [List.takeWhile_append_of_pos hinner, List.takeWhile_cons_of_neg (by simp), List.append_nil]
  have hitems : (if inner = [] then [] else separated inner) = items.map (·.toList) := by
    cases items with
    | nil => rfl
    | cons item items =>
      have hfirst : inner ≠ [] := by
        obtain ⟨c, cs, hcs⟩ := List.exists_cons_of_ne_nil (hne item List.mem_cons_self)
        cases items with
        | nil => simp [inner, hcs]
        | cons next items => simp [inner, hcs]
      rw [if_neg hfirst]
      refine separated_intercalate (List.cons_ne_nil _ _) fun other hother => ?_
      obtain ⟨s, hs, rfl⟩ := List.mem_map.mp hother
      exact hcomma s hs
  rw [htext]
  simp only [readBracketed, hdrop, htake, hitems]

/-! ### Items -/

theorem readCount_toString (n : ℕ) : readCount (toString n).toList = some n := by
  have hdigits : (Decimal.digits n).all Char.isDigit = true :=
    List.all_eq_true.mpr fun c hc => Decimal.isDigit_of_mem_digits hc
  rw [Decimal.toList_toString, readCount, if_pos ⟨Decimal.digits_ne_nil n, hdigits⟩, Decimal.value_digits]

theorem toString_ne_nil (n : ℕ) : (toString n).toList ≠ [] := by
  intro hnil
  have hread := readCount_toString n
  rw [hnil] at hread
  exact absurd hread (by simp [readCount])

/-- A latency that is elapsed time, if it is known. -/
def IsTimed (latency : Option Float) : Prop := ∀ x, latency = some x → ∃ a b : TimeOfDay, x = a.elapsed b

theorem point_mem_shortLatency (a b : TimeOfDay) : '.' ∈ (shortLatency (some (a.elapsed b))).toList := by
  show '.' ∈ (latencyLayout.text (a.elapsed b)).toList
  rw [TimeOfDay.text_elapsed a b (by decide) (by decide), String.toList_ofList, Decimal.shortPlaces]
  simp

section Timed

variable {latency : Option Float} (h : IsTimed latency)

include h

theorem IsTimed.isFinite : ∀ x, latency = some x → x.isFinite = true := by
  intro x hx
  obtain ⟨a, b, rfl⟩ := h x hx
  exact TimeOfDay.isFinite_elapsed a b

theorem readLatency_shortLatency : readLatency (shortLatency latency).toList = some latency := by
  cases latency with
  | none => rfl
  | some x =>
    obtain ⟨a, b, rfl⟩ := h x rfl
    have hread : Decimal.ofText? (shortLatency (some (a.elapsed b))) = some (a.elapsed b) :=
      TimeOfDay.ofText?_text_elapsed a b (by decide) (by decide)
    have hsign : (shortLatency (some (a.elapsed b))).toList ≠ ['-'] :=
      fun hsign => absurd (hsign ▸ point_mem_shortLatency a b) (by decide)
    rw [readLatency, if_neg hsign, String.ofList_toList, hread, Option.map_some]

theorem shortLatency_ne_nil : (shortLatency latency).toList ≠ [] := by
  cases latency with
  | none => exact List.cons_ne_nil _ _
  | some x =>
    obtain ⟨a, b, rfl⟩ := h x rfl
    exact List.ne_nil_of_mem (point_mem_shortLatency a b)

end Timed

/-! ### The line -/

theorem readBracketed_counts (counts : List ℕ) (rest : List Char) :
    readBracketed ((bracketed (counts.map toString)).toList ++ rest) =
      some (counts.map fun n => (toString n).toList, rest) := by
  have hread := readBracketed_bracketed (counts.map toString) (List.forall_mem_map.mpr fun n _ => toString_ne_nil n)
    (List.forall_mem_map.mpr fun n _ => not_mem_toString n (by decide))
    (List.forall_mem_map.mpr fun n _ => not_mem_toString n (by decide)) rest
  rwa [List.map_map] at hread

theorem readBracketed_latencies {latencies : List (Option Float)} (h : ∀ latency ∈ latencies, IsTimed latency)
    (rest : List Char) :
    readBracketed ((bracketed (latencies.map shortLatency)).toList ++ rest) =
      some (latencies.map fun latency => (shortLatency latency).toList, rest) := by
  have hread := readBracketed_bracketed (latencies.map shortLatency)
    (List.forall_mem_map.mpr fun latency hmem => shortLatency_ne_nil (h latency hmem))
    (List.forall_mem_map.mpr fun latency hmem =>
      not_mem_shortLatency (h latency hmem).isFinite (by decide) (by decide))
    (List.forall_mem_map.mpr fun latency hmem =>
      not_mem_shortLatency (h latency hmem).isFinite (by decide) (by decide)) rest
  rwa [List.map_map] at hread

/-- The texts in the first line are those of the counts and the latencies, one for each. -/
theorem dataLineTexts_plain {r : Report} (h : ∀ latency ∈ r.latencies, IsTimed latency) :
    dataLineTexts r.plain = some (r.counts.map fun n => (toString n).toList,
      r.latencies.map fun latency => (shortLatency latency).toList) := by
  let rest := r.totalsLine ++ String.join (r.classes.toList.map fun c => "\n" ++ table r.batchSize c)
  have hplain : r.plain.toList = (bracketed (r.counts.map toString)).toList ++
      ' ' :: ((bracketed (r.latencies.map shortLatency)).toList ++ '\n' :: rest.toList) := by
    simp only [plain, dataLine, rest, String.toList_append, List.append_assoc]
    rfl
  unfold dataLineTexts
  rw [hplain, readBracketed_counts]
  simp only [Option.bind_eq_bind, Option.bind_some, readBracketed_latencies h]
  rfl

/-- **The first line is read back** as the counts and the latencies. -/
theorem readDataLine_plain {r : Report} (h : ∀ latency ∈ r.latencies, IsTimed latency) :
    readDataLine r.plain = some (r.counts, r.latencies) := by
  have hcounts := mapM_map_eq_some fun n (_ : n ∈ r.counts) => readCount_toString n
  have hlatencies := mapM_map_eq_some fun latency hmem => readLatency_shortLatency (h latency hmem)
  unfold readDataLine
  rw [dataLineTexts_plain h]
  simp only [Option.bind_eq_bind, Option.bind_some, hcounts, hlatencies]
  rfl

theorem isTimed_of_measure {ε : Type} {commands io : Feed ε} {p : Intervals} {s : Settings} {r : Report}
    (hp : (Intervals.measure commands io).outcome = .ok p) (hr : ofIntervals p s = .ok r) :
    ∀ latency ∈ r.latencies, IsTimed latency := by
  rintro latency hmem x rfl
  have hmeasured := mem_of_mem_latenciesOf (data_of_ofIntervals_eq_ok hr).1 hmem
  rw [Intervals.eq_ofTimes_of_measure hp] at hmeasured
  exact exists_elapsed_of_mem_gaps hmeasured

end LogCorrelation.Report
