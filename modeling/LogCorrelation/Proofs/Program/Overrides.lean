import LogCorrelation.Proofs.Program.Ending

/-!
# Proofs.Program.Overrides — what a settings file decides where options replace its values

The settings of a file are checked as they are read, before any option is laid over them, and again afterwards.  So a
value that an option replaces still has to pass the first check; after that it has no part in the run, unless the run
reads the settings file once more, as one of its logs.

* `covers_iff`: which settings become the same under given options.
* `renderingOn_eq_of_check_eq_error`: the first check has the last word.
* `onTree_of_overridden`: what becomes of two runs whose settings files differ in replaced values only.
-/

namespace LogCorrelation

namespace CommandLine.Options

/-- Whether the options replace every value in which two settings differ. -/
structure Covers (o : Options) (s s' : Settings) : Prop where
  commandLog : o.commandLog = none → s.commandLog = s'.commandLog
  ioLog : o.ioLog = none → s.ioLog = s'.ioLog
  batchSize : o.batchSize = none → s.batchSize = s'.batchSize
  evenLabel : o.evenLabel = none → s.evenLabel = s'.evenLabel
  oddLabel : o.oddLabel = none → s.oddLabel = s'.oddLabel
  fillFirst : o.raw = false → s.fillFirst = s'.fillFirst

theorem getD_eq_getD_iff {β : Type} (given : Option β) (b b' : β) :
    given.getD b = given.getD b' ↔ (given = none → b = b') := by
  cases given with
  | none => exact ⟨fun h _ => h, fun h => h rfl⟩
  | some given => exact ⟨fun _ hnone => absurd hnone (by simp), fun _ => rfl⟩

theorem covers_iff (o : Options) (s s' : Settings) : o.Covers s s' ↔ o.appliedTo s = o.appliedTo s' := by
  have hraw : (s.fillFirst && !o.raw) = (s'.fillFirst && !o.raw) ↔ (o.raw = false → s.fillFirst = s'.fillFirst) := by
    cases o.raw <;> simp
  rw [appliedTo, appliedTo, Settings.mk.injEq, getD_eq_getD_iff, getD_eq_getD_iff, getD_eq_getD_iff,
    getD_eq_getD_iff, getD_eq_getD_iff, hraw]
  constructor
  · intro h
    exact ⟨h.commandLog, h.ioLog, h.batchSize, h.evenLabel, h.oddLabel, h.fillFirst⟩
  · rintro ⟨hcommands, hio, hsize, heven, hodd, hfill⟩
    exact ⟨hcommands, hio, hsize, heven, hodd, hfill⟩

end CommandLine.Options

namespace Program

open CommandLine (Options)
open Files.Tree (DifferOnlyAt)
open Report (Press)

variable {press : Press} {arguments : List String} {t t' : Tree} {o : Options} {path : String} {place : List String}
  {s s' : Settings}

/-! ### The settings file -/

/-- The settings that the file at a path describes, before they are checked. -/
def describedAt (t : Tree) (path : String) : Option Settings :=
  match t.read path with
  | .error _ => none
  | .ok bytes => do
    let text ← String.fromUTF8? ⟨bytes.toArray⟩
    let document ← Toml.document? text
    Settings.ofDocument? document

theorem baseOn_of_describedAt (hfile : o.settingsFile = some path) (hs : describedAt t path = some s) :
    baseOn t o = (s.check.map fun _ => s).mapError (.settingsInvalid path) := by
  have hbase : baseOn t o = settingsOfFile path ((t.read path).mapError (·.message)) := by
    rw [baseOn, hfile]
  rw [describedAt] at hs
  cases hread : t.read path with
  | error fault =>
    rw [hread] at hs
    exact absurd hs (by simp)
  | ok bytes =>
    rw [hread] at hs
    obtain ⟨text, htext, hs⟩ := Option.bind_eq_some_iff.mp hs
    have hfilled :
        settingsOfFile path (.ok bytes) = (Settings.read text).mapError (.settingsInvalid path) := by
      rw [settingsOfFile, htext]
    have htyped : (Toml.document? text).bind Settings.ofDocument? = some s := hs
    have hchecked : Settings.read text = s.check.map fun _ => s := by
      unfold Settings.read
      rw [htyped]
      cases hcheck : s.check <;> simp [hcheck, Except.map]
    rw [hbase, hread, ← hchecked]
    exact hfilled

/-- Settings that break a rule end the run, whatever the options put in their place. -/
theorem renderingOn_eq_of_check_eq_error {fault : Settings.Fault} (hfile : o.settingsFile = some path)
    (hs : describedAt t path = some s) (hcheck : s.check = .error fault) :
    renderingOn press t o = .error (.settingsInvalid path fault) := by
  rw [renderingOn, baseOn_of_describedAt hfile hs, hcheck]
  rfl

theorem baseOn_eq_ok_of_check_eq_ok (hfile : o.settingsFile = some path) (hs : describedAt t path = some s)
    (hcheck : s.check = .ok ()) : baseOn t o = .ok s := by
  rw [baseOn_of_describedAt hfile hs, hcheck]
  rfl

theorem renderingOn_eq_of_check_eq_ok (hfile : o.settingsFile = some path) (hs : describedAt t path = some s)
    (hcheck : s.check = .ok ()) :
    renderingOn press t o = resolve o s >>= fun resolved => renderingUnder press t resolved o.chosenFormat := by
  rw [renderingOn, baseOn_eq_ok_of_check_eq_ok hfile hs hcheck]
  rfl

/-! ### Two runs -/

/-- A path that does not lead to a given file. -/
def LeadsElsewhere (t : Tree) (place : List String) (path : String) : Prop :=
  t.follow path ≠ .ok (.place place false)

theorem renderingUnder_eq (hdiffer : DifferOnlyAt place t t') (hcommands : LeadsElsewhere t place s.commandLog)
    (hio : LeadsElsewhere t place s.ioLog) (format : CommandLine.Format) :
    renderingUnder press t s format = renderingUnder press t' s format := by
  have hopen {log : String} (hlog : LeadsElsewhere t place log) : openTreeLog t log = openTreeLog t' log := by
    rw [openTreeLog, openTreeLog, hdiffer.openFile_eq hlog]
  rw [renderingUnder, renderingUnder, hopen hcommands, hopen hio]

/-- A command line that does not ask for the steps of its run to be traced. -/
def Quiet (arguments : List String) : Prop := ∀ o, CommandLine.read arguments = .ok o → o.debug = false

/-- Two runs of a command line, on files of their own, that tell the same and write the same to the same place.  What a
run complains of is compared only where nothing else stands beside it. -/
structure SameRun (arguments : List String) (t t' : Tree) (e e' : Outcome × Tree) : Prop where
  exitCode : e.1.exitCode = e'.1.exitCode
  stdout : e.1.stdout = e'.1.stdout
  stderr : Quiet arguments → e.1.stderr = e'.1.stderr
  files : (e.2 = t ∧ e'.2 = t') ∨ ∃ place text, e.2 = t.put place (bytesOf text) ∧ e'.2 = t'.put place (bytesOf text)

theorem SameRun.of_outcome_eq {e e' : Outcome × Tree} (h : e.1 = e'.1)
    (hfiles : (e.2 = t ∧ e'.2 = t') ∨
      ∃ place text, e.2 = t.put place (bytesOf text) ∧ e'.2 = t'.put place (bytesOf text)) :
    SameRun arguments t t' e e' :=
  ⟨congrArg (·.exitCode) h, congrArg (·.stdout) h, fun _ => congrArg (·.stderr) h, hfiles⟩

/-- A run that a fault of its settings file ends: nothing is printed but that, and nothing is written. -/
structure EndsWithFault (arguments : List String) (path : String) (fault : Settings.Fault) (t : Tree)
    (e : Outcome × Tree) : Prop where
  exitCode : e.1.exitCode = 1
  stdout : e.1.stdout = ""
  stderr : Quiet arguments → e.1.stderr = (Failure.settingsInvalid path fault).text
  files : e.2 = t

/-- What the text and the place of the output decide between them. -/
theorem sameRun_of_renderingOn_eq (hread : CommandLine.read arguments = .ok o)
    (hrendering : renderingOn press t o = renderingOn press t' o)
    (hplace : ∀ path, t.writePlace path = t'.writePlace path) :
    SameRun arguments t t' (onTree press arguments t) (onTree press arguments t') := by
  rw [onTree_of_read_eq_ok hread, onTree_of_read_eq_ok hread, ← hrendering]
  cases renderingOn press t o with
  | error f => exact .of_outcome_eq rfl (.inl ⟨rfl, rfl⟩)
  | ok text =>
    show SameRun arguments t t' ((deliver treeHost o text).run t) ((deliver treeHost o text).run t')
    cases houtput : o.output with
    | none =>
      rw [run_deliver_of_none houtput, run_deliver_of_none houtput]
      exact .of_outcome_eq rfl (.inl ⟨rfl, rfl⟩)
    | some path =>
      cases hfilled : t.writePlace path with
      | error fault =>
        have hfilled' : t'.writePlace path = .error fault := (hplace path).symm.trans hfilled
        rw [run_deliver_of_notWritten houtput hfilled, run_deliver_of_notWritten houtput hfilled']
        exact .of_outcome_eq rfl (.inl ⟨rfl, rfl⟩)
      | ok filled =>
        have hfilled' : t'.writePlace path = .ok filled := (hplace path).symm.trans hfilled
        rw [run_deliver_of_written houtput hfilled, run_deliver_of_written houtput hfilled']
        exact .of_outcome_eq rfl (.inr ⟨filled, text, rfl, rfl⟩)

/-- Two trees that hold different settings in the file that a command line names, and settings that differ only where
the command line replaces them. -/
structure Overridden (arguments : List String) (path : String) (place : List String) (t t' : Tree) (s s' : Settings) :
    Prop where
  differ : DifferOnlyAt place t t'
  leads : t.follow path = .ok (.place place false)
  described : describedAt t path = some s
  described' : describedAt t' path = some s'
  named : ∀ o, CommandLine.read arguments = .ok o → o.settingsFile = some path
  covers : ∀ o, CommandLine.read arguments = .ok o → o.Covers s s'

/-- Neither log of a run is the file at a place. -/
def ReadsElsewhere (arguments : List String) (t : Tree) (place : List String) (s : Settings) : Prop :=
  ∀ o, CommandLine.read arguments = .ok o →
    LeadsElsewhere t place (o.appliedTo s).commandLog ∧ LeadsElsewhere t place (o.appliedTo s).ioLog

theorem sameRun_of_read_eq_error {stop : CommandLine.Stop} (hread : CommandLine.read arguments = .error stop) :
    SameRun arguments t t' (onTree press arguments t) (onTree press arguments t') := by
  rw [onTree_of_read_eq_error hread, onTree_of_read_eq_error hread]
  exact .of_outcome_eq rfl (.inl ⟨rfl, rfl⟩)

theorem endsWithFault_of_check_eq_error {fault : Settings.Fault} (hread : CommandLine.read arguments = .ok o)
    (hfile : o.settingsFile = some path) (hs : describedAt t path = some s) (hcheck : s.check = .error fault) :
    EndsWithFault arguments path fault t (onTree press arguments t) := by
  rw [(Ends.failed hread (renderingOn_eq_of_check_eq_error hfile hs hcheck)).eq]
  exact ⟨rfl, rfl, fun _ => rfl, rfl⟩

theorem Overridden.sameRun (h : Overridden arguments path place t t' s s') (hs : s.check = .ok ())
    (hs' : s'.check = .ok ()) (hlogs : ReadsElsewhere arguments t place s) :
    SameRun arguments t t' (onTree press arguments t) (onTree press arguments t') := by
  cases hread : CommandLine.read arguments with
  | error stop => exact sameRun_of_read_eq_error hread
  | ok o =>
    refine sameRun_of_renderingOn_eq hread ?_ h.differ.writePlace_eq
    have happlied : o.appliedTo s = o.appliedTo s' := (o.covers_iff s s').mp (h.covers o hread)
    have hresolve : resolve o s = resolve o s' := by rw [resolve, resolve, happlied]
    rw [renderingOn_eq_of_check_eq_ok (h.named o hread) h.described hs,
      renderingOn_eq_of_check_eq_ok (h.named o hread) h.described' hs', ← hresolve]
    cases hresolved : resolve o s with
    | error f => rfl
    | ok resolved =>
      have hlogs' := hlogs o hread
      rw [(resolve_eq_ok_iff.mp hresolved).1] at hlogs'
      exact renderingUnder_eq h.differ hlogs'.1 hlogs'.2 o.chosenFormat

/-- **A replaced value decides nothing once it has passed its check**: settings that break a rule end the run as they
are, and settings that keep both rules give the same run, if no log of it is the settings file itself. -/
theorem onTree_of_overridden (h : Overridden arguments path place t t' s s') (press : Press) :
    (∀ stop, CommandLine.read arguments = .error stop →
        SameRun arguments t t' (onTree press arguments t) (onTree press arguments t')) ∧
      (∀ o fault, CommandLine.read arguments = .ok o → s.check = .error fault →
        EndsWithFault arguments path fault t (onTree press arguments t)) ∧
      (∀ o fault, CommandLine.read arguments = .ok o → s'.check = .error fault →
        EndsWithFault arguments path fault t' (onTree press arguments t')) ∧
      (s.check = .ok () → s'.check = .ok () → ReadsElsewhere arguments t place s →
        SameRun arguments t t' (onTree press arguments t) (onTree press arguments t')) := by
  refine ⟨fun stop hread => sameRun_of_read_eq_error hread, ?_, ?_, h.sameRun⟩
  · intro o fault hread hcheck
    exact endsWithFault_of_check_eq_error hread (h.named o hread) h.described hcheck
  · intro o fault hread hcheck
    exact endsWithFault_of_check_eq_error hread (h.named o hread) h.described' hcheck

/-! ### A small tree and command line -/

/-- A settings file and two empty logs. -/
def smallTree (settings : String) : Tree :=
  ⟨[], [(["s"], .file (bytesOf settings)), (["c"], .file []), (["e"], .file [])]⟩

/-- A command line that names the settings file, replaces the batch size, and names the logs. -/
def smallArguments (commandLog : String) : List String :=
  ["--config", "s", "--batch-size", "5", "--commands", commandLog, "--io-events", "e"]

/-- What that command line asks for. -/
def smallOptions (commandLog : String) : Options :=
  { settingsFile := some "s", batchSize := some 5, commandLog := some commandLog, ioLog := some "e" }

theorem differOnlyAt_smallTree (a b : String) : DifferOnlyAt ["s"] (smallTree a) (smallTree b) := by
  refine ⟨rfl, ?_, ⟨_, rfl⟩, ⟨_, rfl⟩⟩
  intro other hother
  have hne : (other == ["s"]) = false := by simp [hother]
  simp only [Files.Tree.find?, smallTree, List.lookup_cons, hne]

theorem follow_smallTree (settings : String) :
    (smallTree settings).follow "s" = .ok (.place ["s"] false) ∧
      (smallTree settings).follow "c" = .ok (.place ["c"] false) ∧
      (smallTree settings).follow "e" = .ok (.place ["e"] false) :=
  ⟨rfl, rfl, rfl⟩

theorem read_smallTree (settings : String) :
    (smallTree settings).read "s" = .ok (bytesOf settings) := rfl

theorem openTreeLog_smallTree (settings : String) :
    openTreeLog (smallTree settings) "s" = .ok [.bytes (bytesOf settings)] ∧
      openTreeLog (smallTree settings) "c" = .ok [.bytes []] ∧
      openTreeLog (smallTree settings) "e" = .ok [.bytes []] :=
  ⟨rfl, rfl, rfl⟩

theorem describedAt_smallTree (settings : String) :
    describedAt (smallTree settings) "s" = (Toml.document? settings).bind Settings.ofDocument? := by
  have hvalid : ByteArray.IsValidUTF8 ⟨settings.toUTF8.data⟩ := settings.isValidUTF8
  have htext : String.fromUTF8? ⟨(bytesOf settings).toArray⟩ = some settings := by
    rw [bytesOf, Array.toArray_toList]
    unfold String.fromUTF8?
    rw [dif_pos hvalid]
    rfl
  rw [describedAt, read_smallTree]
  show (String.fromUTF8? ⟨(bytesOf settings).toArray⟩ >>= fun text =>
    Toml.document? text >>= Settings.ofDocument?) = _
  rw [htext]
  rfl

theorem overridden_smallTree {a b log : String} (hread : CommandLine.read (smallArguments log) = .ok (smallOptions log))
    (ha : (Toml.document? a).bind Settings.ofDocument? = some s)
    (hb : (Toml.document? b).bind Settings.ofDocument? = some s') (hcovers : (smallOptions log).Covers s s') :
    Overridden (smallArguments log) "s" ["s"] (smallTree a) (smallTree b) s s' := by
  refine ⟨differOnlyAt_smallTree a b, (follow_smallTree a).1, ?_, ?_, ?_, ?_⟩
  · rw [describedAt_smallTree, ha]
  · rw [describedAt_smallTree, hb]
  · intro o hread'
    obtain rfl : smallOptions log = o := Except.ok.inj (hread.symm.trans hread')
    rfl
  · intro o hread'
    obtain rfl : smallOptions log = o := Except.ok.inj (hread.symm.trans hread')
    exact hcovers

theorem document_batch_size_zero :
    (Toml.document? "batch_size = 0\n").bind Settings.ofDocument? = some { batchSize := 0 } := by decide

theorem document_commands_path :
    (Toml.document? "commands_path = 'x'\n").bind Settings.ofDocument? = some { commandLog := "x" } := by decide +kernel

theorem document_empty : (Toml.document? "").bind Settings.ofDocument? = some {} := by decide

theorem overridden_small_zero :
    Overridden (smallArguments "c") "s" ["s"] (smallTree "batch_size = 0\n") (smallTree "") { batchSize := 0 } {} :=
  overridden_smallTree rfl document_batch_size_zero document_empty ((Options.covers_iff _ _ _).mpr rfl)

theorem overridden_small_path :
    Overridden (smallArguments "c") "s" ["s"] (smallTree "commands_path = 'x'\n") (smallTree "")
      { commandLog := "x" } {} :=
  overridden_smallTree rfl document_commands_path document_empty ((Options.covers_iff _ _ _).mpr rfl)

theorem exitCode_onTree_small_empty (press : Press) :
    (onTree press (smallArguments "c") (smallTree "")).1.exitCode = 0 := by
  have hopen := openTreeLog_smallTree ""
  have hbase : baseOn (smallTree "") (smallOptions "c") = .ok {} :=
    baseOn_eq_ok_of_check_eq_ok rfl overridden_small_path.described' rfl
  obtain ⟨text, hr⟩ : ∃ text, renderingOn press (smallTree "") (smallOptions "c") = .ok text :=
    ⟨_, renderingOn_eq_formatted hbase rfl hopen.2.1 hopen.2.2 press⟩
  rw [(Ends.printed rfl hr rfl).eq]
  rfl

/-- A press that makes no document and no drawing. -/
def noPress : Press := ⟨fun _ => .error ["no writer"], fun _ => .error ["no colours"]⟩

/-- The name of a log, or none at all, makes no difference to a run that is given its own. -/
theorem onTree_of_overridden_small :
    SameRun (smallArguments "c") (smallTree "commands_path = 'x'\n") (smallTree "")
        (onTree noPress (smallArguments "c") (smallTree "commands_path = 'x'\n"))
        (onTree noPress (smallArguments "c") (smallTree "")) ∧
      (onTree noPress (smallArguments "c") (smallTree "commands_path = 'x'\n")).1.exitCode = 0 ∧
      EndsWithFault (smallArguments "c") "s" .zeroBatchSize (smallTree "batch_size = 0\n")
        (onTree noPress (smallArguments "c") (smallTree "batch_size = 0\n")) := by
  have hlogs : ReadsElsewhere (smallArguments "c") (smallTree "commands_path = 'x'\n") ["s"] { commandLog := "x" } := by
    intro o hread
    obtain rfl : smallOptions "c" = o := Except.ok.inj hread
    have hfollow := follow_smallTree "commands_path = 'x'\n"
    refine ⟨?_, ?_⟩
    · intro hcommands
      exact absurd (hfollow.2.1.symm.trans hcommands) (by simp)
    · intro hio
      exact absurd (hfollow.2.2.symm.trans hio) (by simp)
  have hsame := (onTree_of_overridden overridden_small_path noPress).2.2.2 rfl rfl hlogs
  have hrefused := (onTree_of_overridden overridden_small_zero noPress).2.1 (smallOptions "c") .zeroBatchSize rfl rfl
  refine ⟨hsame, ?_, hrefused⟩
  rw [hsame.exitCode]
  exact exitCode_onTree_small_empty noPress

/-- A batch size of zero ends the run though an option replaces it, and a settings file that is the log of commands as
well ends the run where its text is none of a log. -/
theorem replaced_value_decides :
    (Overridden (smallArguments "c") "s" ["s"] (smallTree "batch_size = 0\n") (smallTree "") { batchSize := 0 } {} ∧
        (onTree noPress (smallArguments "c") (smallTree "batch_size = 0\n")).1.exitCode = 1 ∧
        (onTree noPress (smallArguments "c") (smallTree "")).1.exitCode = 0) ∧
      Overridden (smallArguments "s") "s" ["s"] (smallTree "commands_path = 'x'\n") (smallTree "")
          { commandLog := "x" } {} ∧
        (onTree noPress (smallArguments "s") (smallTree "commands_path = 'x'\n")).1.exitCode = 1 ∧
        (onTree noPress (smallArguments "s") (smallTree "")).1.exitCode = 0 := by
  have haliased :
      Overridden (smallArguments "s") "s" ["s"] (smallTree "commands_path = 'x'\n") (smallTree "")
        { commandLog := "x" } {} :=
    overridden_smallTree rfl document_commands_path document_empty ((Options.covers_iff _ _ _).mpr rfl)
  have hopen := openTreeLog_smallTree ""
  have hopen' := openTreeLog_smallTree "commands_path = 'x'\n"
  have hbase : baseOn (smallTree "") (smallOptions "s") = .ok {} :=
    baseOn_eq_ok_of_check_eq_ok rfl haliased.described' rfl
  have hbase' : baseOn (smallTree "commands_path = 'x'\n") (smallOptions "s") = .ok { commandLog := "x" } :=
    baseOn_eq_ok_of_check_eq_ok rfl haliased.described rfl
  obtain ⟨text, hr⟩ : ∃ text, renderingOn noPress (smallTree "") (smallOptions "s") = .ok text :=
    ⟨_, renderingOn_eq_formatted hbase rfl hopen.1 hopen.2.2 noPress⟩
  obtain ⟨f, hf⟩ : ∃ f, renderingOn noPress (smallTree "commands_path = 'x'\n") (smallOptions "s") = .error f :=
    ⟨_, renderingOn_eq_formatted hbase' rfl hopen'.1 hopen'.2.2 noPress⟩
  refine ⟨⟨overridden_small_zero, ?_, exitCode_onTree_small_empty noPress⟩, haliased, ?_, ?_⟩
  · exact (endsWithFault_of_check_eq_error rfl rfl overridden_small_zero.described rfl).exitCode
  · rw [(Ends.failed rfl hf).eq]
    rfl
  · rw [(Ends.printed rfl hr rfl).eq]
    rfl

end Program

end LogCorrelation
