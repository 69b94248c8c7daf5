import LogCorrelation.Proofs.Program.Ending

/-!
# Proofs.Program.FilesLeft — what a run leaves of the files it found

A run that fails, for whatever reason and however late, has printed no answer and left every file as it was; so it is
also where its report cannot be put into the format.  A run that succeeds has written to one place at most, that of the
output it was asked for, even where this is one of its logs.

* `Ends.isOutput_of_changed`: the only place that can differ behind a run.
* `onTree_leaves_files`: both cases, and when a run succeeds.
-/

namespace LogCorrelation.Program

open Report (Press)

variable {press : Press} {arguments : List String} {t : Tree}

/-- When a run succeeds: it only tells about itself, or it makes a text that it can deliver. -/
def Succeeds (press : Press) (arguments : List String) (t : Tree) : Prop :=
  CommandLine.read arguments = .error .version ∨ (∃ long, CommandLine.read arguments = .error (.help long)) ∨
    ∃ o text, CommandLine.read arguments = .ok o ∧ renderingOn press t o = .ok text ∧
      ∀ path, o.output = some path → ∃ place, t.writePlace path = .ok place

/-- Whether a place is that of the output asked for. -/
def IsOutput (arguments : List String) (t : Tree) (place : List String) : Prop :=
  ∃ o path, CommandLine.read arguments = .ok o ∧ o.output = some path ∧ t.follow path = .ok (.place place false)

/-- What is left behind by a run that succeeds. -/
structure LeavesOutput (arguments : List String) (t : Tree) (e : Outcome × Tree) : Prop where
  elsewhere : ∀ place, e.2.find? place ≠ t.find? place → IsOutput arguments t place
  silent : ∀ o, CommandLine.read arguments = .ok o → o.output.isSome = true → e.1.stdout = ""
  unwritten : ∀ o, CommandLine.read arguments = .ok o → o.output = none → e.2 = t
  stopped : ∀ stop, CommandLine.read arguments = .error stop → e.2 = t

/-! ### Ending by ending -/

namespace Ends

variable {e : Outcome × Tree}

theorem succeeds (h : Ends press arguments t e) (hzero : e.1.exitCode = 0) : Succeeds press arguments t := by
  cases h with
  | @stopped stop hread =>
    cases stop with
    | help long => exact .inr (.inl ⟨long, hread⟩)
    | version => exact .inl hread
    | refused fault => exact absurd hzero (Nat.succ_ne_zero 1)
  | failed hread hrendering => exact absurd hzero Nat.one_ne_zero
  | @printed o text hread hrendering houtput =>
    have hnone : ∀ path, o.output = some path → ∃ place, t.writePlace path = .ok place := by
      intro path hpath
      exact absurd (houtput.symm.trans hpath) (by simp)
    exact .inr (.inr ⟨o, text, hread, hrendering, hnone⟩)
  | notWritten hread hrendering houtput hplace => exact absurd hzero Nat.one_ne_zero
  | @written o text path place hread hrendering houtput hplace =>
    have hwrites : ∀ path', o.output = some path' → ∃ place, t.writePlace path' = .ok place := by
      intro path' hpath
      obtain rfl : path = path' := Option.some.inj (houtput.symm.trans hpath)
      exact ⟨place, hplace⟩
    exact .inr (.inr ⟨o, text, hread, hrendering, hwrites⟩)

/-- A run that does not succeed has printed nothing and written nothing. -/
theorem leaves_nothing (h : Ends press arguments t e) (hcode : e.1.exitCode ≠ 0) :
    e.1.stdout = "" ∧ e.2 = t := by
  cases h with
  | @stopped stop hread =>
    cases stop with
    | help long => exact absurd rfl hcode
    | version => exact absurd rfl hcode
    | refused fault => exact ⟨rfl, rfl⟩
  | failed hread hrendering => exact ⟨rfl, rfl⟩
  | printed hread hrendering houtput => exact absurd rfl hcode
  | notWritten hread hrendering houtput hplace => exact ⟨rfl, rfl⟩
  | written hread hrendering houtput hplace => exact absurd rfl hcode

/-- No place but that of the output can differ behind a run. -/
theorem isOutput_of_changed (h : Ends press arguments t e) {place : List String}
    (hchanged : e.2.find? place ≠ t.find? place) : IsOutput arguments t place := by
  cases h with
  | stopped hread => exact absurd rfl hchanged
  | failed hread hrendering => exact absurd rfl hchanged
  | printed hread hrendering houtput => exact absurd rfl hchanged
  | notWritten hread hrendering houtput hplace => exact absurd rfl hchanged
  | @written o text path filled hread hrendering houtput hplace =>
    by_cases hfilled : place = filled
    · rw [hfilled]
      exact ⟨o, path, hread, houtput, Files.Tree.follow_of_writePlace_eq_ok hplace⟩
    · exact absurd (Files.Tree.find?_put_of_ne t hfilled _) hchanged

theorem silent_of_output (h : Ends press arguments t e) {o : CommandLine.Options}
    (ho : CommandLine.read arguments = .ok o) (hsome : o.output.isSome = true) : e.1.stdout = "" := by
  cases h with
  | stopped hread => exact absurd (hread.symm.trans ho) (by simp)
  | failed hread hrendering => rfl
  | @printed o' text hread hrendering houtput =>
    obtain rfl : o' = o := Except.ok.inj (hread.symm.trans ho)
    rw [houtput] at hsome
    exact absurd hsome (by simp)
  | notWritten hread hrendering houtput hplace => rfl
  | written hread hrendering houtput hplace => rfl

theorem unwritten_of_no_output (h : Ends press arguments t e) {o : CommandLine.Options}
    (ho : CommandLine.read arguments = .ok o) (hnone : o.output = none) : e.2 = t := by
  cases h with
  | stopped hread => rfl
  | failed hread hrendering => rfl
  | printed hread hrendering houtput => rfl
  | notWritten hread hrendering houtput hplace => rfl
  | @written o' text path place hread hrendering houtput hplace =>
    obtain rfl : o' = o := Except.ok.inj (hread.symm.trans ho)
    exact absurd (houtput.symm.trans hnone) (by simp)

theorem leavesOutput (h : Ends press arguments t e) : LeavesOutput arguments t e where
  elsewhere _ hchanged := h.isOutput_of_changed hchanged
  silent _ ho hsome := h.silent_of_output ho hsome
  unwritten _ ho hnone := h.unwritten_of_no_output ho hnone
  stopped stop hstop := by
    obtain rfl := h.eq
    rw [onTree_of_read_eq_error hstop]

end Ends

theorem exitCode_eq_zero_of_succeeds (h : Succeeds press arguments t) : (onTree press arguments t).1.exitCode = 0 := by
  obtain hread | ⟨long, hread⟩ | ⟨o, text, hread, hrendering, hwrites⟩ := h
  · rw [(Ends.stopped hread).eq]
    rfl
  · rw [(Ends.stopped hread).eq]
    rfl
  · cases houtput : o.output with
    | none =>
      rw [(Ends.printed hread hrendering houtput).eq]
      rfl
    | some path =>
      obtain ⟨place, hplace⟩ := hwrites path houtput
      rw [(Ends.written hread hrendering houtput hplace).eq]
      rfl

/-! ### Both cases -/

/-- **A run leaves nothing behind unless it succeeds**, and then nothing but the output it was asked for. -/
theorem onTree_leaves_files (press : Press) (arguments : List String) (t : Tree) :
    ((onTree press arguments t).1.exitCode = 0 ↔ Succeeds press arguments t) ∧
      ((onTree press arguments t).1.exitCode ≠ 0 →
        (onTree press arguments t).1.stdout = "" ∧ (onTree press arguments t).2 = t) ∧
      ((onTree press arguments t).1.exitCode = 0 → LeavesOutput arguments t (onTree press arguments t)) :=
  have hends := ends_onTree press arguments t
  ⟨⟨hends.succeeds, exitCode_eq_zero_of_succeeds⟩, hends.leaves_nothing, fun _ => hends.leavesOutput⟩

/-- An output that names the log of commands is written over, and the other log stays.  A bad line at the end of that
other log leaves both as they were, and so does a chart that cannot be drawn. -/
theorem onTree_leaves_files_of_aliased_output :
    let press : Press := ⟨fun _ => .error ["no writer"], fun _ => .error ["no colours", "no palette"]⟩
    let arguments := ["--commands", "c", "--io-events", "e", "-o", "c"]
    let t : Tree := ⟨[], [(["c"], .file []), (["e"], .file [])]⟩
    let broken : Tree := ⟨[], [(["c"], .file []), (["e"], .file [65])]⟩
    ((onTree press arguments t).1.exitCode = 0 ∧ (onTree press arguments t).1.stdout = "" ∧
        (onTree press arguments t).2.find? ["e"] = t.find? ["e"]) ∧
      ((onTree press arguments broken).1.exitCode ≠ 0 ∧ (onTree press arguments broken).1.stdout = "" ∧
        (onTree press arguments broken).2 = broken) ∧
      (onTree press (arguments ++ ["--format", "html"]) t).1.exitCode ≠ 0 ∧
        (onTree press (arguments ++ ["--format", "html"]) t).1.stdout = "" ∧
        (onTree press (arguments ++ ["--format", "html"]) t).2 = t := by
  intro press arguments t broken
  let o : CommandLine.Options := { commandLog := some "c", ioLog := some "e", output := some "c" }
  let s : Settings := { commandLog := "c", ioLog := "e" }
  have hread : CommandLine.read arguments = .ok o := by rfl
  have hhtml : CommandLine.read (arguments ++ ["--format", "html"]) = .ok { o with format := some .html } := by rfl
  have hcommands : openTreeLog t "c" = .ok [.bytes []] := rfl
  have hio : openTreeLog t "e" = .ok [.bytes []] := rfl
  have hplace : t.writePlace "c" = .ok ["c"] := rfl
  have hcommands' : openTreeLog broken "c" = .ok [.bytes []] := rfl
  have hio' : openTreeLog broken "e" = .ok [.bytes [65]] := rfl
  obtain ⟨text, hr⟩ : ∃ text, renderingOn press t o = .ok text :=
    ⟨_, renderingOn_eq_formatted (s := s) rfl rfl hcommands hio press⟩
  obtain ⟨f, hf⟩ : ∃ f, renderingOn press broken o = .error f :=
    ⟨_, renderingOn_eq_formatted (s := s) rfl rfl hcommands' hio' press⟩
  obtain ⟨f', hf'⟩ : ∃ f, renderingOn press t { o with format := some .html } = .error f :=
    ⟨_, renderingOn_eq_formatted (s := s) rfl rfl hcommands hio press⟩
  have hends := (Ends.written hread hr rfl hplace).eq
  have hends' := (Ends.failed hread hf).eq
  have hends'' := (Ends.failed hhtml hf').eq
  have hzero : (onTree press arguments t).1.exitCode = 0 := by rw [hends]; rfl
  have hone : (onTree press arguments broken).1.exitCode ≠ 0 := by rw [hends']; exact Nat.one_ne_zero
  have hone' : (onTree press (arguments ++ ["--format", "html"]) t).1.exitCode ≠ 0 := by
    rw [hends'']
    exact Nat.one_ne_zero
  have hleaves := (onTree_leaves_files press arguments t).2.2 hzero
  refine ⟨⟨hzero, hleaves.silent o hread rfl, Classical.byContradiction fun hchanged => ?_⟩,
    ⟨hone, (onTree_leaves_files press arguments broken).2.1 hone⟩, hone',
    (onTree_leaves_files press (arguments ++ ["--format", "html"]) t).2.1 hone'⟩
  obtain ⟨o', path, ho', hpath, hfollow⟩ := hleaves.elsewhere ["e"] hchanged
  obtain rfl : o = o' := Except.ok.inj (hread.symm.trans ho')
  obtain rfl : "c" = path := Option.some.inj hpath
  have hfollow' : t.follow "c" = .ok (.place ["c"] false) := Files.Tree.follow_of_writePlace_eq_ok hplace
  exact absurd (hfollow'.symm.trans hfollow) (by simp)

end LogCorrelation.Program
