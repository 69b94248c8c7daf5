import LogCorrelation.Program.Run
import LogCorrelation.Proofs.Files.OnePlace

/-!
# Proofs.Program.Ending — how a run on files in memory ends

A run first makes its text from the files as they are, and only then delivers it.  `renderingOn` is the first part, with
no host and no state; `Ends` lists the ways in which a run can end, and what stands behind each.

* `ends_onTree`: every run ends in one of these ways.
* `Ends.eq`: and in no other; so what a run does is read off the parts it is made of.
-/

namespace LogCorrelation.Program

open Report (Press)

/-! ### The part before delivery -/

/-- The settings on which the options stand, given the files. -/
def baseOn (t : Tree) (o : CommandLine.Options) : Except Failure Settings :=
  match o.settingsFile with
  | none => .ok {}
  | some path => settingsOfFile path ((t.read path).mapError (·.message))

/-- The options over a base are the settings of the run if and only if they pass the check together. -/
theorem resolve_eq_ok_iff {o : CommandLine.Options} {base s : Settings} :
    resolve o base = .ok s ↔ o.appliedTo base = s ∧ s.check = .ok () := by
  rw [resolve, Except.mapError_eq_ok_iff, Except.map_eq_ok_iff]
  constructor
  · rintro ⟨_, hcheck, rfl⟩
    exact ⟨rfl, hcheck⟩
  · rintro ⟨rfl, hcheck⟩
    exact ⟨(), hcheck, rfl⟩

/-- The text under given settings, given the files. -/
def renderingUnder (press : Press) (t : Tree) (s : Settings) (format : CommandLine.Format) : Except Failure String :=
  formatted press format (Report.ofLogs s (openTreeLog t s.commandLog) (openTreeLog t s.ioLog))

/-- The text that a run makes of the files, before it delivers it. -/
def renderingOn (press : Press) (t : Tree) (o : CommandLine.Options) : Except Failure String := do
  let base ← baseOn t o
  let s ← resolve o base
  renderingUnder press t s o.chosenFormat

/-- The text of a run is what is formatted of the logs that its settings name. -/
theorem renderingOn_eq_formatted {t : Tree} {o : CommandLine.Options} {base s : Settings} {commands io : Report.Opened}
    (hbase : baseOn t o = .ok base) (hs : resolve o base = .ok s) (hcommands : openTreeLog t s.commandLog = commands)
    (hio : openTreeLog t s.ioLog = io) (press : Press) :
    renderingOn press t o = formatted press o.chosenFormat (Report.ofLogs s commands io) := by
  rw [renderingOn, hbase]
  show (resolve o base >>= fun s => renderingUnder press t s o.chosenFormat) = _
  rw [hs]
  show renderingUnder press t s o.chosenFormat = _
  rw [renderingUnder, hcommands, hio]

/-! ### Endings -/

/-- The ways in which a run can end: what it leaves behind, and the files. -/
inductive Ends (press : Press) (arguments : List String) (t : Tree) : Outcome × Tree → Prop
  | stopped {stop : CommandLine.Stop} (hread : CommandLine.read arguments = .error stop) :
      Ends press arguments t (stopped stop, t)
  | failed {o : CommandLine.Options} {f : Failure} (hread : CommandLine.read arguments = .ok o)
      (hrendering : renderingOn press t o = .error f) : Ends press arguments t (.failure f, t)
  | printed {o : CommandLine.Options} {text : String} (hread : CommandLine.read arguments = .ok o)
      (hrendering : renderingOn press t o = .ok text) (houtput : o.output = none) :
      Ends press arguments t (.success text, t)
  | notWritten {o : CommandLine.Options} {text : String} {path : String} {fault : Files.Fault}
      (hread : CommandLine.read arguments = .ok o) (hrendering : renderingOn press t o = .ok text)
      (houtput : o.output = some path) (hplace : t.writePlace path = .error fault) :
      Ends press arguments t (.failure (.notWritten path fault.message), t)
  | written {o : CommandLine.Options} {text : String} {path : String} {place : List String}
      (hread : CommandLine.read arguments = .ok o) (hrendering : renderingOn press t o = .ok text)
      (houtput : o.output = some path) (hplace : t.writePlace path = .ok place) :
      Ends press arguments t (.success "", t.put place (bytesOf text))

variable {press : Press} {arguments : List String} {t : Tree}

theorem run_bind_of_run_eq {α β : Type} {x : StateM Tree α} {a : α} {t' : Tree} (h : x.run t = (a, t'))
    (f : α → StateM Tree β) : (x >>= f).run t = (f a).run t' := by
  rw [StateT.run_bind, h]
  rfl

/-- What a run with given options does: the part before delivery decides between failure and delivery. -/
theorem run_runOptions (press : Press) (o : CommandLine.Options) (t : Tree) :
    (runOptions press treeHost o).run t =
      match renderingOn press t o with
      | .error f => (.failure f, t)
      | .ok text => (deliver treeHost o text).run t := by
  have hbase : (baseSettings treeHost o).run t = (baseOn t o, t) := by
    unfold baseSettings baseOn
    cases o.settingsFile <;> rfl
  have hrendering (s : Settings) :
      (rendering press treeHost s o.chosenFormat).run t = (renderingUnder press t s o.chosenFormat, t) := rfl
  unfold runOptions renderingOn
  rw [run_bind_of_run_eq hbase]
  cases baseOn t o with
  | error f => rfl
  | ok base =>
    simp only [Except.ok_bind]
    cases resolve o base with
    | error f => rfl
    | ok s =>
      simp only [Except.ok_bind]
      rw [run_bind_of_run_eq (hrendering s)]
      cases renderingUnder press t s o.chosenFormat <;> rfl

theorem run_deliver_of_none {o : CommandLine.Options} (h : o.output = none) (text : String) (t : Tree) :
    (deliver treeHost o text).run t = (.success text, t) := by
  rw [deliver, h]
  rfl

theorem run_deliver_of_notWritten {o : CommandLine.Options} {path : String} (h : o.output = some path)
    {fault : Files.Fault} (hplace : t.writePlace path = .error fault) (text : String) :
    (deliver treeHost o text).run t = (.failure (.notWritten path fault.message), t) := by
  have hrefused : t.write path (bytesOf text) = .error fault := by
    rw [Files.Tree.write_eq, hplace]
    rfl
  have hwrite : (treeHost.writeFile path text).run t = (.error fault.message, t) := by
    simp only [treeHost, StateT.run_bind, StateT.run_get, pure_bind, hrefused]
    rfl
  rw [deliver, h]
  exact run_bind_of_run_eq hwrite _

theorem run_deliver_of_written {o : CommandLine.Options} {path : String} (h : o.output = some path)
    {place : List String} (hplace : t.writePlace path = .ok place) (text : String) :
    (deliver treeHost o text).run t = (.success "", t.put place (bytesOf text)) := by
  have hfilled : t.write path (bytesOf text) = .ok (t.put place (bytesOf text)) := by
    rw [Files.Tree.write_eq, hplace]
    rfl
  have hwrite : (treeHost.writeFile path text).run t = (.ok (), t.put place (bytesOf text)) := by
    simp only [treeHost, StateT.run_bind, StateT.run_get, pure_bind, hfilled]
    rfl
  rw [deliver, h]
  exact run_bind_of_run_eq hwrite _

theorem onTree_of_read_eq_error {stop : CommandLine.Stop} (hread : CommandLine.read arguments = .error stop) :
    onTree press arguments t = (stopped stop, t) := by
  rw [onTree, run, hread]
  rfl

theorem onTree_of_read_eq_ok {o : CommandLine.Options} (hread : CommandLine.read arguments = .ok o) :
    onTree press arguments t =
      match renderingOn press t o with
      | .error f => (.failure f, t)
      | .ok text => (deliver treeHost o text).run t := by
  rw [onTree, run, hread]
  exact run_runOptions press o t

/-- **Every run ends** in one of the ways listed. -/
theorem ends_onTree (press : Press) (arguments : List String) (t : Tree) :
    Ends press arguments t (onTree press arguments t) := by
  cases hread : CommandLine.read arguments with
  | error stop =>
    rw [onTree_of_read_eq_error hread]
    exact .stopped hread
  | ok o =>
    rw [onTree_of_read_eq_ok hread]
    cases hrendering : renderingOn press t o with
    | error f => exact .failed hread hrendering
    | ok text =>
      cases houtput : o.output with
      | none =>
        show Ends press arguments t ((deliver treeHost o text).run t)
        rw [run_deliver_of_none houtput]
        exact .printed hread hrendering houtput
      | some path =>
        show Ends press arguments t ((deliver treeHost o text).run t)
        cases hplace : t.writePlace path with
        | error fault =>
          rw [run_deliver_of_notWritten houtput hplace]
          exact .notWritten hread hrendering houtput hplace
        | ok place =>
          rw [run_deliver_of_written houtput hplace]
          exact .written hread hrendering houtput hplace

/-- **A run ends in one way only.** -/
theorem Ends.eq {e : Outcome × Tree} (h : Ends press arguments t e) : onTree press arguments t = e := by
  cases h with
  | stopped hread => exact onTree_of_read_eq_error hread
  | failed hread hrendering => rw [onTree_of_read_eq_ok hread, hrendering]
  | printed hread hrendering houtput =>
    rw [onTree_of_read_eq_ok hread, hrendering]
    exact run_deliver_of_none houtput _ t
  | notWritten hread hrendering houtput hplace =>
    rw [onTree_of_read_eq_ok hread, hrendering]
    exact run_deliver_of_notWritten houtput hplace _
  | written hread hrendering houtput hplace =>
    rw [onTree_of_read_eq_ok hread, hrendering]
    exact run_deliver_of_written houtput hplace _

end LogCorrelation.Program
