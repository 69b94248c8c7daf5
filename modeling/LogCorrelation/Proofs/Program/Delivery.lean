import LogCorrelation.Proofs.Program.Ending

/-!
# Proofs.Program.Delivery — a report is the same printed and written

Where a report goes is the last thing that a run looks at: up to then two command lines that differ in the output only
lead to the same text, or to the same failure.  All that the run reads it has read by then, so the output may be
one of its logs, or its settings file.

* `SameReport.renderingOn_eq`: the part before delivery does not look at the output.
* `onTree_writes_what_is_printed`: what a run leaves that writes, next to one that prints.
-/

namespace LogCorrelation.Program

open Report (Press)

/-- Two options that agree in all but the output. -/
structure SameReport (o o' : CommandLine.Options) : Prop where
  commandLog : o.commandLog = o'.commandLog
  ioLog : o.ioLog = o'.ioLog
  settingsFile : o.settingsFile = o'.settingsFile
  chosenFormat : o.chosenFormat = o'.chosenFormat
  batchSize : o.batchSize = o'.batchSize
  evenLabel : o.evenLabel = o'.evenLabel
  oddLabel : o.oddLabel = o'.oddLabel
  raw : o.raw = o'.raw
  debug : o.debug = o'.debug

/-- What is left by a run that has written a text: no answer printed, and a file with the bytes of the text. -/
structure HasWritten (path text : String) (e : Outcome × Tree) : Prop where
  exitCode : e.1.exitCode = 0
  stdout : e.1.stdout = ""
  holds : e.2.read path = .ok (bytesOf text)

/-- What is left by a run that was refused the file to write to: nothing but the refusal, unless it traces. -/
structure CouldNotWrite (o : CommandLine.Options) (path : String) (t : Tree) (e : Outcome × Tree) : Prop where
  exitCode : e.1.exitCode = 1
  stdout : e.1.stdout = ""
  refused : ∃ fault, (∀ bytes, t.write path bytes = .error fault) ∧
    (o.debug = false → e.1.stderr = (Failure.notWritten path fault.message).text)
  unwritten : e.2 = t

variable {press : Press} {arguments arguments' : List String} {o o' : CommandLine.Options} {path : String} {t : Tree}

/-! ### Before delivery -/

theorem SameReport.appliedTo_eq (h : SameReport o o') (s : Settings) : o.appliedTo s = o'.appliedTo s := by
  rw [CommandLine.Options.appliedTo, CommandLine.Options.appliedTo, h.commandLog, h.ioLog, h.batchSize, h.evenLabel,
    h.oddLabel, h.raw]

/-- **The part before delivery** comes to the same for options that differ in the output only. -/
theorem SameReport.renderingOn_eq (h : SameReport o o') (press : Press) (t : Tree) :
    renderingOn press t o = renderingOn press t o' := by
  have hbase : baseOn t o = baseOn t o' := by rw [baseOn, baseOn, h.settingsFile]
  have hresolve (base : Settings) : resolve o base = resolve o' base := by
    rw [resolve, resolve, h.appliedTo_eq base]
  simp only [renderingOn, hbase, hresolve, h.chosenFormat]

/-! ### Delivery -/

theorem hasWritten_put {place : List String} (hplace : t.writePlace path = .ok place) (text : String) :
    HasWritten path text (.success "", t.put place (bytesOf text)) where
  exitCode := rfl
  stdout := rfl
  holds := Files.Tree.read_put_of_writePlace_eq_ok hplace (bytesOf text)

theorem couldNotWrite_of_writePlace_eq_error {fault : Files.Fault} (hplace : t.writePlace path = .error fault)
    (o : CommandLine.Options) : CouldNotWrite o path t (.failure (.notWritten path fault.message), t) where
  exitCode := rfl
  stdout := rfl
  refused := ⟨fault, fun bytes => by rw [Files.Tree.write_eq, hplace]; rfl, fun _ => rfl⟩
  unwritten := rfl

/-- **A report is the same printed and written.**  Of two command lines that differ in the output only, one prints and
the other writes to a file, on the same files and with the same press, whatever its documents and drawings are.  If the
one succeeds, the other has written what the one printed, byte for byte, or it was refused the file; if the one fails,
the other fails with the same code and, unless it traces, the same complaint. -/
theorem onTree_writes_what_is_printed (hread : CommandLine.read arguments = .ok o)
    (hread' : CommandLine.read arguments' = .ok o') (hsame : SameReport o o') (hprints : o.output = none)
    (hwrites : o'.output = some path) (press : Press) (t : Tree) :
    ((onTree press arguments t).1.exitCode = 0 →
        HasWritten path (onTree press arguments t).1.stdout (onTree press arguments' t) ∨
          CouldNotWrite o' path t (onTree press arguments' t)) ∧
      ((onTree press arguments t).1.exitCode ≠ 0 →
        (onTree press arguments' t).1.exitCode = (onTree press arguments t).1.exitCode ∧
          (o'.debug = false → (onTree press arguments' t).1.stderr = (onTree press arguments t).1.stderr)) := by
  have hsteps := hsame.renderingOn_eq press t
  cases hrendering : renderingOn press t o with
  | error f =>
    rw [(Ends.failed hread hrendering).eq, (Ends.failed hread' (hsteps ▸ hrendering)).eq]
    refine ⟨fun hzero => absurd hzero Nat.one_ne_zero, fun _ => ⟨rfl, fun _ => rfl⟩⟩
  | ok text =>
    rw [(Ends.printed hread hrendering hprints).eq]
    refine ⟨fun _ => ?_, fun hcode => absurd rfl hcode⟩
    have hrendering' : renderingOn press t o' = .ok text := hsteps ▸ hrendering
    cases hplace : t.writePlace path with
    | error fault =>
      rw [(Ends.notWritten hread' hrendering' hwrites hplace).eq]
      exact .inr (couldNotWrite_of_writePlace_eq_error hplace o')
    | ok place =>
      rw [(Ends.written hread' hrendering' hwrites hplace).eq]
      exact .inl (hasWritten_put hplace text)

/-- The output is the log of commands itself, and it holds the page afterwards, with the drawings of its charts; a
directory that is not there takes no report; and where the log of events is broken, both runs complain alike. -/
theorem onTree_writes_what_is_printed_over_log :
    let press : Press := ⟨fun _ => .error ["no writer"], fun c => .ok s!"<svg>{c.valueTitle}</svg>\n"⟩
    let arguments := ["--raw", "--commands", "c", "--io-events", "e", "--format", "html"]
    let o : CommandLine.Options := { commandLog := some "c", ioLog := some "e", raw := true, format := some .html }
    let t : Tree := ⟨[], [(["c"], .file (bytesOf "00:00:01.000000\n")), (["e"], .file [])]⟩
    let broken : Tree := ⟨[], [(["c"], .file []), (["e"], .file [65])]⟩
    (HasWritten "c" (onTree press arguments t).1.stdout (onTree press (arguments ++ ["-o", "c"]) t) ∧
        CouldNotWrite { o with output := some "d/r" } "d/r" t (onTree press (arguments ++ ["-o", "d/r"]) t)) ∧
      (onTree press arguments broken).1.exitCode = 1 ∧
        (onTree press (arguments ++ ["-o", "e"]) broken).1.stderr = (onTree press arguments broken).1.stderr := by
  intro press arguments o t broken
  let s : Settings := { commandLog := "c", ioLog := "e", fillFirst := false }
  have hread : CommandLine.read arguments = .ok o := by rfl
  have hover : CommandLine.read (arguments ++ ["-o", "c"]) = .ok { o with output := some "c" } := by rfl
  have haside : CommandLine.read (arguments ++ ["-o", "d/r"]) = .ok { o with output := some "d/r" } := by rfl
  have hbroken : CommandLine.read (arguments ++ ["-o", "e"]) = .ok { o with output := some "e" } := by rfl
  have hcommands : openTreeLog t "c" = .ok [.bytes (bytesOf "00:00:01.000000\n")] := rfl
  have hio : openTreeLog t "e" = .ok [.bytes []] := rfl
  have hcommands' : openTreeLog broken "c" = .ok [.bytes []] := rfl
  have hio' : openTreeLog broken "e" = .ok [.bytes [65]] := rfl
  obtain ⟨text, hr⟩ : ∃ text, renderingOn press t o = .ok text :=
    ⟨_, renderingOn_eq_formatted (s := s) rfl rfl hcommands hio press⟩
  obtain ⟨f, hf⟩ : ∃ f, renderingOn press broken o = .error f :=
    ⟨_, renderingOn_eq_formatted (s := s) rfl rfl hcommands' hio' press⟩
  have hzero : (onTree press arguments t).1.exitCode = 0 := by rw [(Ends.printed hread hr rfl).eq]; rfl
  have hone : (onTree press arguments broken).1.exitCode = 1 := by rw [(Ends.failed hread hf).eq]; rfl
  have hsame (path : String) : SameReport o { o with output := some path } :=
    ⟨rfl, rfl, rfl, rfl, rfl, rfl, rfl, rfl, rfl⟩
  refine ⟨⟨?_, ?_⟩, hone, ?_⟩
  · -- the file is there, so the report is not refused
    refine ((onTree_writes_what_is_printed hread hover (hsame "c") rfl rfl press t).1 hzero).resolve_right ?_
    rintro ⟨-, -, ⟨fault, hfault, -⟩, -⟩
    have hplace : t.writePlace "c" = .ok ["c"] := rfl
    have hwrite := (Files.Tree.write_eq t "c" []).symm.trans (hfault _)
    rw [hplace] at hwrite
    exact absurd hwrite (by simp [Except.map])
  · refine ((onTree_writes_what_is_printed hread haside (hsame "d/r") rfl rfl press t).1 hzero).resolve_left ?_
    intro hwritten
    have hplace : t.writePlace "d/r" = .error .notFound := rfl
    obtain ⟨text', hr'⟩ : ∃ text', renderingOn press t { o with output := some "d/r" } = .ok text' := ⟨text, hr⟩
    have hcode := hwritten.exitCode
    rw [(Ends.notWritten haside hr' rfl hplace).eq] at hcode
    exact absurd hcode Nat.one_ne_zero
  · have hfails := (onTree_writes_what_is_printed hread hbroken (hsame "e") rfl rfl press broken).2
    exact (hfails (hone ▸ Nat.one_ne_zero)).2 rfl

end LogCorrelation.Program
