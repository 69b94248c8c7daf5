import LogCorrelation.Proofs.Program.Overrides
import LogCorrelation.Proofs.Report.Labels
import LogCorrelation.Proofs.Settings.Document

/-!
# Proofs.Program.Resolution — the settings that a report is made under

Options stand over the settings file, and the settings file over the defaults.  What the file says has been checked
before an option is laid over it, and one option can undo that, so the rules are checked again on what comes out.
Hence they hold of the settings of every report that a run hands over, wherever each of them came from.

* `describes_of_baseOn`, `resolved_of_resolve_eq_ok`: the two steps from a document to the settings of a run.
* `onTree_reports_as_resolved`: every run that reports does so under such settings, and labels tell parities in it.
-/

namespace LogCorrelation.Program

open CommandLine (Options)
open Settings (Taken Describes)
open Toml (Document Value)
open Report (Press)

variable {press : Press} {arguments : List String} {t : Tree} {o : Options}

/-! ### The settings of a run -/

/-- The document that settings are taken from: that of the settings file, or an empty one if none is named. -/
inductive SettingsFrom (t : Tree) (o : Options) : Document → Prop
  | file {path text : String} {bytes : List UInt8} {d : Document} (hfile : o.settingsFile = some path)
      (hread : t.read path = .ok bytes) (htext : String.fromUTF8? ⟨bytes.toArray⟩ = some text)
      (hd : Toml.document? text = some d) : SettingsFrom t o d
  | defaults (hfile : o.settingsFile = none) : SettingsFrom t o []

/-- Where the value of a setting comes from: from its option, or from a document if the option is not given. -/
inductive Chosen {β : Type} (given : Option β) (d : Document) (key : String) (value? : Value → Option β) (default : β) :
    β → Prop
  | option {b : β} (hgiven : given = some b) : Chosen given d key value? default b
  | document {b : β} (hgiven : given = none) (htaken : Taken d key value? default b) :
      Chosen given d key value? default b

theorem chosen_getD {β : Type} {d : Document} {key : String} {value? : Value → Option β} {default b : β}
    (h : Taken d key value? default b) (given : Option β) : Chosen given d key value? default (given.getD b) := by
  cases given with
  | none => exact .document rfl h
  | some b => exact .option rfl

/-- Settings that come from the options, a document and the defaults, in this order, and keep both rules. -/
structure Resolved (o : Options) (d : Document) (s : Settings) : Prop where
  commandLog : Chosen o.commandLog d "commands_path" Value.text? "bench/timestamps.txt" s.commandLog
  ioLog : Chosen o.ioLog d "io_events_path" Value.text? "bench/io_timestamps.txt" s.ioLog
  batchSize : Chosen o.batchSize d "batch_size" Value.count? 10000 s.batchSize
  evenLabel : Chosen o.evenLabel d "even_label" Value.text? "PUT" s.evenLabel
  oddLabel : Chosen o.oddLabel d "odd_label" Value.text? "GET" s.oddLabel
  fillFirst : ∃ b, Taken d "correct_first_latency" Value.truth? true b ∧ s.fillFirst = (b && !o.raw)
  batchSize_pos : 0 < s.batchSize
  labels_ne : s.evenLabel ≠ s.oddLabel

theorem settingsOfFile_eq_ok {path : String} {bytes : Except String (List UInt8)} {base : Settings}
    (h : settingsOfFile path bytes = .ok base) :
    ∃ bs text, bytes = .ok bs ∧ String.fromUTF8? ⟨bs.toArray⟩ = some text ∧ Settings.read text = .ok base := by
  cases bytes with
  | error cause => exact absurd h (by simp [settingsOfFile])
  | ok bs =>
    rw [settingsOfFile] at h
    cases htext : String.fromUTF8? ⟨bs.toArray⟩ with
    | none =>
      rw [htext] at h
      exact absurd h (by simp)
    | some text =>
      rw [htext] at h
      exact ⟨bs, text, rfl, htext, Except.mapError_eq_ok_iff.mp h⟩

theorem read_settings_eq_ok {text : String} {base : Settings} (h : Settings.read text = .ok base) :
    ∃ d, Toml.document? text = some d ∧ Settings.ofDocument? d = some base := by
  unfold Settings.read at h
  cases hs : (Toml.document? text).bind Settings.ofDocument? with
  | none =>
    rw [hs] at h
    exact absurd h (by simp)
  | some s =>
    rw [hs] at h
    obtain ⟨d, hd, hdescribed⟩ := Option.bind_eq_some_iff.mp hs
    cases hcheck : s.check with
    | error fault => simp [hcheck] at h
    | ok _ =>
      have hsame : s = base := by simpa [hcheck] using h
      exact ⟨d, hd, hsame ▸ hdescribed⟩

/-- **Under the options** stand the settings that some document describes. -/
theorem describes_of_baseOn {base : Settings} (h : baseOn t o = .ok base) :
    ∃ d, SettingsFrom t o d ∧ Describes d base := by
  unfold baseOn at h
  split at h
  · next hfile =>
    obtain rfl := Except.ok.inj h
    have hkeys : (([] : Document).map (·.1)).Nodup := List.nodup_nil
    exact ⟨[], .defaults hfile, Settings.ofDocument?_describes hkeys rfl⟩
  · next path hfile =>
    obtain ⟨bs, text, hbytes, htext, hread⟩ := settingsOfFile_eq_ok h
    obtain ⟨d, hd, hdescribed⟩ := read_settings_eq_ok hread
    exact ⟨d, .file hfile (Except.mapError_eq_ok_iff.mp hbytes) htext hd,
      Settings.ofDocument?_describes (Toml.nodup_keys_of_document? hd) hdescribed⟩

theorem resolved_of_resolve_eq_ok {d : Document} {base s : Settings} (hbase : Describes d base)
    (h : resolve o base = .ok s) : Resolved o d s := by
  obtain ⟨rfl, hcheck⟩ := resolve_eq_ok_iff.mp h
  obtain ⟨hpos, hne⟩ := (Settings.check_eq_ok_iff _).mp hcheck
  exact ⟨chosen_getD hbase.commandLog _, chosen_getD hbase.ioLog _, chosen_getD hbase.batchSize _,
    chosen_getD hbase.evenLabel _, chosen_getD hbase.oddLabel _, ⟨_, hbase.fillFirst, rfl⟩, hpos, hne⟩

/-! ### The report of a run -/

/-- A report under given settings on the logs that they name. -/
def ReportsOn (t : Tree) (s : Settings) (r : Report) : Prop :=
  Report.ofLogs s (openTreeLog t s.commandLog) (openTreeLog t s.ioLog) = .ok r

theorem labelsTellParity_of_reportsOn {d : Document} {s : Settings} {r : Report} (hs : Resolved o d s)
    (hr : ReportsOn t s r) : Report.LabelsTellParity s r := by
  obtain ⟨_, -, hr⟩ := Except.bind_eq_ok_iff.mp hr
  obtain ⟨_, -, hr⟩ := Except.bind_eq_ok_iff.mp hr
  obtain ⟨p, hp, hr⟩ := Except.bind_eq_ok_iff.mp hr
  exact Report.labelsTellParity (Except.mapError_eq_ok_iff.mp hp) (Except.mapError_eq_ok_iff.mp hr) hs.labels_ne

theorem resolved_of_renderingOn {text : String} (h : renderingOn press t o = .ok text) :
    ∃ d s r, SettingsFrom t o d ∧ Resolved o d s ∧ ReportsOn t s r ∧ r.render press o.chosenFormat = .ok text := by
  obtain ⟨base, hbase, h⟩ := Except.bind_eq_ok_iff.mp h
  obtain ⟨s, hs, h⟩ := Except.bind_eq_ok_iff.mp h
  obtain ⟨d, hfrom, hdescribed⟩ := describes_of_baseOn hbase
  unfold renderingUnder formatted at h
  split at h
  · exact absurd h (by simp)
  · next r hr =>
    exact ⟨d, s, r, hfrom, resolved_of_resolve_eq_ok hdescribed hs, hr, Except.mapError_eq_ok_iff.mp h⟩

/-- A run that hands over nothing: it fails, prints no answer and leaves all files as they are. -/
structure HandsOverNothing (t : Tree) (e : Outcome × Tree) : Prop where
  exitCode : e.1.exitCode = 1
  stdout : e.1.stdout = ""
  files : e.2 = t

/-- A run that hands over a text: it succeeds, and prints it or leaves its bytes in the file asked for. -/
structure HandsOver (o : Options) (text : String) (e : Outcome × Tree) : Prop where
  exitCode : e.1.exitCode = 0
  printed : o.output = none → e.1.stdout = text
  written : ∀ path, o.output = some path → e.2.read path = .ok (bytesOf text)

/-- What a run with readable options hands over is the text that it makes. -/
theorem handsOver_onTree (hread : CommandLine.read arguments = .ok o) (press : Press) (t : Tree) :
    HandsOverNothing t (onTree press arguments t) ∨
      ∃ text, renderingOn press t o = .ok text ∧ HandsOver o text (onTree press arguments t) := by
  have hsame {o' : Options} (hread' : CommandLine.read arguments = .ok o') : o = o' :=
    Except.ok.inj (hread.symm.trans hread')
  generalize hends : onTree press arguments t = e
  cases hends ▸ ends_onTree press arguments t with
  | stopped hread' => exact absurd (hread.symm.trans hread') (by simp)
  | failed _ _ => exact .inl ⟨rfl, rfl, rfl⟩
  | notWritten _ _ _ _ => exact .inl ⟨rfl, rfl, rfl⟩
  | printed hread' hrendering houtput =>
    obtain rfl := hsame hread'
    exact .inr ⟨_, hrendering, rfl, fun _ => rfl, fun path hpath => absurd (houtput.symm.trans hpath) (by simp)⟩
  | written hread' hrendering houtput hplace =>
    obtain rfl := hsame hread'
    refine .inr ⟨_, hrendering, rfl, fun hnone => absurd (hnone.symm.trans houtput) (by simp), fun path hpath => ?_⟩
    obtain rfl := Option.some.inj (houtput.symm.trans hpath)
    exact Files.Tree.read_put_of_writePlace_eq_ok hplace _

end LogCorrelation.Program
