import LogCorrelation.Proofs.Intervals.PullCount
import LogCorrelation.Proofs.Json.Elapsed
import LogCorrelation.Proofs.Report.Rows
import LogCorrelation.Proofs.TimeOfDay.Elapsed
import LogCorrelation.Report.DocumentReader

/-!
# Proofs.Report.DocumentRoundTrip — documents are read back from their text

A document repeats what a report holds, on paths of its own.  Its text is read back as the very document, whatever the
labels are, and what it repeats agrees.

* `Document.ofJson?_json`: a document is read back from its value.
* `isFinite_of_mem_gaps`: the latencies of measured intervals are finite numbers, so none of them is written as null.
* `document_read_back`: the text of a report on measured intervals.
-/

namespace LogCorrelation.Report

open Intervals (Feed)
open Json (ReadsBack)

/-! ### Documents from their values -/

/-- What is read of a list is read of each of its elements. -/
theorem mapM_map_eq_some_map {α β γ : Type} {write : α → β} {read : β → Option γ} {seen : α → γ} {as : List α}
    (h : ∀ a ∈ as, read (write a) = some (seen a)) : (as.map write).mapM read = some (as.map seen) := by
  induction as with
  | nil => rfl
  | cons a as ih =>
    rw [List.map_cons, List.mapM_cons, h a List.mem_cons_self, ih fun b hb => h b (List.mem_cons_of_mem a hb)]
    rfl

theorem mapM_map_eq_some {α β : Type} {write : α → β} {read : β → Option α} {as : List α}
    (h : ∀ a ∈ as, read (write a) = some a) : (as.map write).mapM read = some as := by
  have hseen := mapM_map_eq_some_map h
  rwa [List.map_id'] at hseen

theorem mapM_count? (counts : List Nat) : (counts.map Json.count).mapM count? = some counts := by
  exact mapM_map_eq_some fun _ _ => rfl

theorem latency?_elim (latency : Option Float) : latency? (latency.elim .null .real) = some latency := by
  cases latency <;> rfl

theorem DocumentClass.ofJson?_json (c : DocumentClass) : DocumentClass.ofJson? c.json = some c := by
  have hcounts := mapM_count? c.counts
  have hlatencies := mapM_map_eq_some fun latency (_ : latency ∈ c.latencies) => latency?_elim latency
  simp [ofJson?, json, Json.field?, List.lookup_cons, text?, list?, countsJson, latenciesJson, hcounts, hlatencies]

theorem Document.ofJson?_json (d : Document) : Document.ofJson? d.json = some d := by
  have hcounts := mapM_count? d.counts
  have hlatencies := mapM_map_eq_some fun latency (_ : latency ∈ d.latencies) => latency?_elim latency
  have hclasses := mapM_map_eq_some fun c (_ : c ∈ d.classes) => c.ofJson?_json
  simp [ofJson?, json, Json.field?, List.lookup_cons, text?, list?, count?, truth?, countsJson, latenciesJson, hcounts,
    hlatencies, hclasses]

/-! ### The reals of a document -/

theorem mem_realsOfItems {x : Float} {items : List Json} (h : x ∈ Json.realsOfItems items) :
    ∃ item ∈ items, x ∈ item.reals := by
  induction items with
  | nil => exact absurd h (by simp [Json.realsOfItems])
  | cons item items ih =>
    obtain hitem | hitems := List.mem_append.mp h
    · exact ⟨item, List.mem_cons_self, hitem⟩
    · obtain ⟨other, hother, hx⟩ := ih hitems
      exact ⟨other, List.mem_cons_of_mem _ hother, hx⟩

theorem not_mem_reals_countsJson (counts : List Nat) (x : Float) : x ∉ (countsJson counts).reals := by
  intro hx
  obtain ⟨item, hitem, hx⟩ := mem_realsOfItems hx
  obtain ⟨n, -, rfl⟩ := List.mem_map.mp hitem
  exact absurd hx (by simp [Json.reals])

theorem mem_reals_latenciesJson {x : Float} {latencies : List (Option Float)}
    (h : x ∈ (latenciesJson latencies).reals) : some x ∈ latencies := by
  obtain ⟨item, hitem, hx⟩ := mem_realsOfItems h
  obtain ⟨latency, hlatency, rfl⟩ := List.mem_map.mp hitem
  cases latency with
  | none => exact absurd hx (by simp [Json.reals])
  | some y =>
    obtain rfl : x = y := List.mem_singleton.mp hx
    exact hlatency

theorem mem_reals_documentClass {x : Float} {c : DocumentClass} (h : x ∈ c.json.reals) : some x ∈ c.latencies := by
  simp only [DocumentClass.json, Json.reals, Json.realsOfFields, List.nil_append, List.append_nil, List.mem_append] at h
  obtain hcounts | hlatencies := h
  · exact absurd hcounts (not_mem_reals_countsJson _ _)
  · exact mem_reals_latenciesJson hlatencies

theorem mem_reals_document {x : Float} {d : Document} (h : x ∈ d.json.reals) :
    some x ∈ d.latencies ∨ ∃ c ∈ d.classes, some x ∈ c.latencies := by
  simp only [Document.json, Json.reals, Json.realsOfFields, List.nil_append, List.append_nil, List.mem_append] at h
  obtain hcounts | hlatencies | hclasses := h
  · exact absurd hcounts (not_mem_reals_countsJson _ _)
  · exact .inl (mem_reals_latenciesJson hlatencies)
  · obtain ⟨item, hitem, hx⟩ := mem_realsOfItems hclasses
    obtain ⟨c, hc, rfl⟩ := List.mem_map.mp hitem
    exact .inr ⟨c, hc, mem_reals_documentClass hx⟩

theorem mem_of_mem_split {α : Type} {a : α} {values : List α} :
    (a ∈ (Batch.split values).1 → a ∈ values) ∧ (a ∈ (Batch.split values).2 → a ∈ values) := by
  refine ⟨fun h => ?_, fun h => ?_⟩
  · obtain ⟨k, hk⟩ := List.mem_iff_getElem?.mp h
    rw [(Batch.getElem?_split values k).1] at hk
    exact List.mem_of_getElem? hk
  · obtain ⟨k, hk⟩ := List.mem_iff_getElem?.mp h
    rw [(Batch.getElem?_split values k).2] at hk
    exact List.mem_of_getElem? hk

/-! ### Finite latencies -/

/-- Every latency that is known is elapsed time. -/
theorem exists_elapsed_of_mem_gaps {previous : Option TimeOfDay} {commands : List TimeOfDay} {x : Float}
    (h : some x ∈ Intervals.gaps previous commands) : ∃ a b : TimeOfDay, x = a.elapsed b := by
  induction commands generalizing previous with
  | nil => exact absurd h (by simp [Intervals.gaps])
  | cons c cs ih =>
    obtain hfirst | hrest := List.mem_cons.mp h
    · cases previous with
      | none => exact absurd hfirst (by simp)
      | some a => exact ⟨a, c, Option.some.inj hfirst⟩
    · exact ih hrest

theorem isFinite_of_mem_gaps {previous : Option TimeOfDay} {commands : List TimeOfDay} {x : Float}
    (h : some x ∈ Intervals.gaps previous commands) : x.isFinite = true := by
  obtain ⟨a, b, rfl⟩ := exists_elapsed_of_mem_gaps h
  exact TimeOfDay.isFinite_elapsed a b

theorem mem_of_fillFirst_eq_ok {latencies : List (Option Float)} {xs : List Float}
    (h : Intervals.fillFirst latencies = .ok xs) {x : Float} (hx : x ∈ xs) : some x ∈ latencies := by
  obtain ⟨-, rfl⟩ | ⟨first, second, third, rest, rfl, rfl⟩ := Intervals.fillFirst_eq_ok_iff.mp h
  · exact absurd hx (by simp)
  · simp only [List.mem_cons] at hx ⊢
    obtain rfl | rfl | rfl | hx := hx
    · simp
    · simp
    · simp
    · exact .inr (.inr (.inr (List.mem_map_of_mem hx)))

/-- Filling in takes a latency that there is. -/
theorem mem_of_mem_latenciesOf {p : Intervals} {s : Settings} {latencies : List (Option Float)}
    (h : latenciesOf p s = .ok latencies) {x : Float} (hx : some x ∈ latencies) : some x ∈ p.latencies := by
  unfold latenciesOf at h
  split at h
  · obtain ⟨xs, hxs, rfl⟩ := Except.map_eq_ok_iff.mp h
    obtain ⟨y, hy, hyx⟩ := List.mem_map.mp hx
    obtain rfl : y = x := Option.some.inj hyx
    exact mem_of_fillFirst_eq_ok hxs hy
  · exact Except.ok.inj h ▸ hx

/-! ### The document of a report -/

/-- Two classes that have the counts and latencies of a document at even and at odd indices. -/
structure Separates (even odd : DocumentClass) (d : Document) : Prop where
  counts : Batch.interleave even.counts odd.counts = d.counts
  latencies : Batch.interleave even.latencies odd.latencies = d.latencies
  atEven : ∀ k, even.counts[k]? = d.counts[2 * k]? ∧ even.latencies[k]? = d.latencies[2 * k]?
  atOdd : ∀ k, odd.counts[k]? = d.counts[2 * k + 1]? ∧ odd.latencies[k]? = d.latencies[2 * k + 1]?

/-- A document that holds what a report under given settings does, and repeats it without contradiction. -/
structure Holds (d : Document) (s : Settings) (r : Report) : Prop where
  batchSize : d.batchSize = s.batchSize
  firstFilled : d.firstFilled = s.fillFirst
  counts : d.counts = r.counts
  latencies : d.latencies = r.latencies
  commands : d.commands = d.latencies.length
  events : d.events = d.counts.sum
  classes : ∃ even odd, d.classes = [even, odd] ∧ even.label = s.evenLabel ∧ odd.label = s.oddLabel ∧
    Separates even odd d

/-- The class of a document with the counts and latencies at even indices. -/
def evenClass (s : Settings) (r : Report) : DocumentClass :=
  ⟨s.evenLabel, (Batch.split r.counts).1, (Batch.split r.latencies).1⟩

/-- The class of a document with the counts and latencies at odd indices. -/
def oddClass (s : Settings) (r : Report) : DocumentClass :=
  ⟨s.oddLabel, (Batch.split r.counts).2, (Batch.split r.latencies).2⟩

theorem separates_document (s : Settings) (r : Report) : Separates (evenClass s r) (oddClass s r) r.document where
  counts := Batch.interleave_split r.counts
  latencies := Batch.interleave_split r.latencies
  atEven k := ⟨(Batch.getElem?_split r.counts k).1, (Batch.getElem?_split r.latencies k).1⟩
  atOdd k := ⟨(Batch.getElem?_split r.counts k).2, (Batch.getElem?_split r.latencies k).2⟩

theorem classes_document {s : Settings} {r : Report}
    (h : r.classes = .ofData s.evenLabel s.oddLabel r.counts r.latencies) :
    r.document.classes = [evenClass s r, oddClass s r] := by
  show (r.classes.toList.map fun c => (⟨c.label, c.counts, c.latencies⟩ : DocumentClass)) = _
  rw [h]
  rfl

theorem holds_document {p : Intervals} {s : Settings} {r : Report} (h : ofIntervals p s = .ok r) :
    Holds r.document s r := by
  obtain ⟨-, -, hclasses⟩ := data_of_ofIntervals_eq_ok h
  have hsettings : r.batchSize = s.batchSize ∧ r.firstFilled = s.fillFirst := by
    obtain ⟨latencies, -, rfl⟩ := Except.map_eq_ok_iff.mp h
    exact ⟨rfl, rfl⟩
  exact ⟨hsettings.1, hsettings.2, rfl, rfl, rfl, rfl, evenClass s r, oddClass s r, classes_document hclasses, rfl, rfl,
    separates_document s r⟩

/-- A latency is written as null where it is unknown, and nowhere else. -/
theorem null_latenciesJson_iff (latencies : List (Option Float)) :
    ∃ items, latenciesJson latencies = .list items ∧ ∀ i : Nat, items[i]? = some .null ↔ latencies[i]? = some none := by
  refine ⟨_, rfl, fun i => ?_⟩
  rw [List.getElem?_map]
  rcases latencies[i]? with _ | _ | x
  · simp
  · simp
  · simp

/-- The latencies of its classes are those of a report. -/
theorem mem_latencies_of_mem_classes {p : Intervals} {s : Settings} {r : Report} (h : ofIntervals p s = .ok r)
    {c : DocumentClass} (hc : c ∈ r.document.classes) {x : Float} (hx : some x ∈ c.latencies) :
    some x ∈ r.latencies := by
  rw [classes_document (data_of_ofIntervals_eq_ok h).2.2] at hc
  have hcases : c = evenClass s r ∨ c = oddClass s r := by simpa using hc
  obtain rfl | rfl := hcases
  · exact mem_of_mem_split.1 hx
  · exact mem_of_mem_split.2 hx

theorem readsBack_of_mem_reals {p : Intervals} {s : Settings} {r : Report} (h : ofIntervals p s = .ok r)
    (hreals : ∀ x, some x ∈ r.latencies → ReadsBack x) : ∀ x ∈ r.document.json.reals, ReadsBack x := by
  intro x hx
  obtain hlatencies | ⟨c, hc, hlatency⟩ := mem_reals_document hx
  · exact hreals x hlatencies
  · exact hreals x (mem_latencies_of_mem_classes h hc hlatency)

/-- A document is read back from its text, if the latencies in it are. -/
theorem read_jsonText {p : Intervals} {s : Settings} {r : Report} (h : ofIntervals p s = .ok r)
    (hreals : ∀ x, some x ∈ r.latencies → ReadsBack x) :
    Json.read r.jsonText = some r.document.json ∧ Document.read r.jsonText = some r.document := by
  have hread : Json.read r.jsonText = some r.document.json := Json.read_pretty (readsBack_of_mem_reals h hreals)
  refine ⟨hread, ?_⟩
  rw [Document.read, hread]
  exact Document.ofJson?_json r.document

/-- **The text of a report on measured intervals is read back as its document.**  It is one JSON value, whatever the
labels are; the document holds what the report does, and tells the numbers of commands and of events that were pulled.
That the text of a finite latency is read back as that latency is assumed. -/
theorem document_read_back {ε : Type} {commands io : Feed ε} {p : Intervals} {s : Settings} {r : Report}
    (hp : (Intervals.measure commands io).outcome = .ok p) (hr : ofIntervals p s = .ok r)
    (hreals : ∀ x, some x ∈ r.latencies → x.isFinite = true → ReadsBack x) :
    Json.read r.jsonText = some r.document.json ∧ Document.read r.jsonText = some r.document ∧
      (∃ items, r.document.json.field? "latencies_ms" = some (.list items) ∧
        ∀ i : Nat, items[i]? = some .null ↔ r.latencies[i]? = some none) ∧
      Holds r.document s r ∧ r.document.commands = commands.times.length ∧ r.document.events = io.times.length ∧
      (Intervals.measure commands io).pulls.count .io = r.document.events + 1 := by
  have hmeasured := Intervals.eq_ofTimes_of_measure hp
  obtain ⟨hlatencies, hcounts, -⟩ := data_of_ofIntervals_eq_ok hr
  have hfinite : ∀ x, some x ∈ p.latencies → x.isFinite = true := by
    intro x hx
    rw [hmeasured] at hx
    exact isFinite_of_mem_gaps hx
  have hback : ∀ x, some x ∈ r.latencies → ReadsBack x :=
    fun x hx => hreals x hx (hfinite x (mem_of_mem_latenciesOf hlatencies hx))
  obtain ⟨hread, hdocument⟩ := read_jsonText hr hback
  have hcommands : r.document.commands = commands.times.length := by
    show r.latencies.length = _
    rw [(counts_and_length_of_ofIntervals_eq_ok hr).2, hmeasured, Intervals.latencies_ofTimes, Intervals.length_gaps]
  have hevents : r.document.events = p.eventCount := by
    show r.counts.sum = p.counts.sum
    rw [hcounts]
  obtain ⟨items, hitems, hnulls⟩ := null_latenciesJson_iff r.latencies
  refine ⟨hread, hdocument, ⟨items, ?_, hnulls⟩, holds_document hr, hcommands, ?_, ?_⟩
  · rw [← hitems]
    rfl
  · rw [hevents, (Intervals.commandCount_and_eventCount_of_measure hp).2]
  · rw [hevents, (Intervals.count_pulls_of_measure hp).2]

/-- Labels with quotes, a backslash, a line break and a control, and a latency that stays unknown. -/
theorem document_read_back_of_two_commands :
    let commands : List TimeOfDay := [⟨1, 0, by decide, by decide⟩, ⟨2, 0, by decide, by decide⟩]
    let events : List TimeOfDay := [⟨1, 500000, by decide, by decide⟩]
    let s : Settings := { evenLabel := "\"\\\n", oddLabel := "\x01", fillFirst := false }
    ∃ p r, (Intervals.measure (.ofTimes commands) (.ofTimes events) : Intervals.Run String Intervals).outcome = .ok p ∧
      ofIntervals p s = .ok r ∧ Document.read r.jsonText = some r.document ∧ Holds r.document s r ∧
      r.latencies[0]? = some none ∧ r.document.commands = 2 ∧ r.document.events = 1 := by
  intro commands events s
  have hp : (Intervals.measure (.ofTimes commands) (.ofTimes events) : Intervals.Run String Intervals).outcome =
      .ok (.ofTimes commands events) := rfl
  obtain ⟨r, hr⟩ : ∃ r, ofIntervals (.ofTimes commands events) s = .ok r := ⟨_, rfl⟩
  have hlatencies : r.latencies = Intervals.gaps none commands :=
    (Except.ok.inj (data_of_ofIntervals_eq_ok hr).1).symm
  have hreals : ∀ x, some x ∈ r.latencies → x.isFinite = true → ReadsBack x := by
    intro x hx _
    rw [hlatencies] at hx
    obtain ⟨a, b, rfl⟩ := exists_elapsed_of_mem_gaps hx
    exact Json.readsBack_elapsed a b
  obtain ⟨-, hread, -, hholds, hcommands, hevents, -⟩ := document_read_back hp hr hreals
  refine ⟨_, r, hp, hr, hread, hholds, ?_, hcommands, hevents⟩
  rw [hlatencies]
  rfl

end LogCorrelation.Report
