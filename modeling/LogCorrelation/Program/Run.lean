import LogCorrelation.CommandLine.Help
import LogCorrelation.CommandLine.Parse
import LogCorrelation.Files.Tree
import LogCorrelation.Program.Failure

/-!
# Program.Run — one run of the program

A run reads its options, then the settings file, opens both logs, makes the report, puts it into its format, and prints
it or writes it to a file.  It reaches files through a `Host`, so that the same run works on the real file system and on
a tree of files held in memory; `onTree` is the latter.  What documents and charts are made with is a `Press`, which may
fail.  No answer is printed and no file written before everything else has succeeded.

With `--debug` a run also traces its steps to the standard error, each line with the time of day.  These lines are left
out: an `Outcome` has what is printed beside them.
-/

namespace LogCorrelation.Program

open Report (Press)

/-- The files that a run works on. -/
structure Host (m : Type → Type) where
  /-- All bytes of a file, or the system's words. -/
  readFile : String → m (Except String (List UInt8))
  /-- A file opened for reading line by line, or the system's words. -/
  openLog : String → m Report.Opened
  /-- Writes a text to a file. -/
  writeFile : String → String → m (Except String Unit)

/-- What a run leaves behind beside files and the lines traced with `--debug`. -/
structure Outcome where
  exitCode : Nat
  /-- What is printed as the answer. -/
  stdout : String
  /-- What is printed as a complaint. -/
  stderr : String

namespace Outcome

/-- A run that succeeded; it has nothing to complain of, whatever it has traced. -/
def success (stdout : String) : Outcome := ⟨0, stdout, ""⟩

/-- A run that failed. -/
def failure (f : Failure) : Outcome := ⟨1, "", f.text⟩

end Outcome

/-! ### Usage -/

/-- The wording of a fault in the command line. -/
def usageText : CommandLine.UsageFault → String
  | .unknownArgument argument => s!"error: unexpected argument '{argument}' found\n"
  | .invalidValue option value => s!"error: invalid value '{value}' for '--{option}'\n"
  | .notANumber option value => s!"error: '{value}' is not a number that '--{option}' can take\n"
  | .repeated option => s!"error: '--{option}' cannot be used multiple times\n"
  | .needlessValue option => s!"error: '--{option}' takes no value\n"

/-- What a run leaves behind whose command line asks for no report. -/
def stopped : CommandLine.Stop → Outcome
  | .help long => .success (CommandLine.helpText long)
  | .version => .success CommandLine.versionText
  | .refused fault => ⟨2, "", usageText fault⟩

/-! ### Settings -/

/-- The settings in a file, given its bytes or the system's words. -/
def settingsOfFile (path : String) : Except String (List UInt8) → Except Failure Settings
  | .error cause => .error (.settingsUnread path cause)
  | .ok bytes =>
    match String.fromUTF8? ⟨bytes.toArray⟩ with
    | none => .error (.settingsUnread path "stream did not contain valid UTF-8")
    | some text => (Settings.read text).mapError (.settingsInvalid path)

/-- The settings with the options over them, checked. -/
def resolve (o : CommandLine.Options) (base : Settings) : Except Failure Settings :=
  let s := o.appliedTo base
  (s.check.map fun _ => s).mapError .settings

variable {m : Type → Type} [Monad m]

/-- The settings on which the options stand: those of the settings file, or the defaults. -/
def baseSettings (host : Host m) (o : CommandLine.Options) : m (Except Failure Settings) :=
  match o.settingsFile with
  | none => pure (.ok {})
  | some path => do return settingsOfFile path (← host.readFile path)

/-! ### Reports -/

/-- The report of a run in the format asked for. -/
def formatted (press : Press) (format : CommandLine.Format) : Except Report.Fault Report → Except Failure String
  | .error fault => .error (.report fault)
  | .ok report => (report.render press format).mapError .rendering

/-- The text of a run with given settings. -/
def rendering (press : Press) (host : Host m) (s : Settings) (format : CommandLine.Format) :
    m (Except Failure String) := do
  let commands ← host.openLog s.commandLog
  let io ← host.openLog s.ioLog
  return formatted press format (Report.ofLogs s commands io)

/-- Prints a text, or writes it to the file asked for. -/
def deliver (host : Host m) (o : CommandLine.Options) (text : String) : m Outcome :=
  match o.output with
  | none => pure (.success text)
  | some path => do
    match ← host.writeFile path text with
    | .error cause => return .failure (.notWritten path cause)
    | .ok () => return .success ""

/-- A run with given options. -/
def runOptions (press : Press) (host : Host m) (o : CommandLine.Options) : m Outcome := do
  match ← baseSettings host o with
  | .error f => return .failure f
  | .ok base =>
    match resolve o base with
    | .error f => return .failure f
    | .ok s =>
      match ← rendering press host s o.chosenFormat with
      | .error f => return .failure f
      | .ok text => deliver host o text

/-- A run with given arguments. -/
def run (press : Press) (host : Host m) (arguments : List String) : m Outcome :=
  match CommandLine.read arguments with
  | .error stop => pure (stopped stop)
  | .ok o => runOptions press host o

/-! ### Files in memory -/

/-- Files in memory. -/
abbrev Tree := Files.Tree (List UInt8)

/-- The bytes of a text. -/
def bytesOf (text : String) : List UInt8 := text.toUTF8.data.toList

/-- A log in memory; a directory can be opened but not read. -/
def openTreeLog (t : Tree) (path : String) : Report.Opened :=
  match t.openFile path with
  | .error fault => .error fault.message
  | .ok .directory => .ok [.fault Files.Fault.isADirectory.message]
  | .ok (.content bytes) => .ok [.bytes bytes]

/-- The host whose files are in memory. -/
def treeHost : Host (StateM Tree) where
  readFile path := do return ((← get).read path).mapError (·.message)
  openLog path := do return openTreeLog (← get) path
  writeFile path text := do
    match (← get).write path (bytesOf text) with
    | .error fault => return .error fault.message
    | .ok t =>
      set t
      return .ok ()

/-- A run on files in memory, with the files it leaves. -/
def onTree (press : Press) (arguments : List String) (t : Tree) : Outcome × Tree :=
  Id.run ((run press treeHost arguments).run t)

end LogCorrelation.Program
