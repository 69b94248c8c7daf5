import LogCorrelation.CommandLine.Options

/-!
# CommandLine.Parse — arguments read into options

Arguments are taken from left to right.  An option that takes a value may have it after `=`, after its letter, or in
the next argument; in the last case it is pending, and it is settled only when the next option or the end is reached.

* An argument that nothing expects is refused before a pending option is settled.
* Settling refuses a missing value first, then an option given twice, then a value that does not fit.
* Help and version end the reading where they stand.
-/

namespace LogCorrelation.CommandLine

/-- Why a command line is refused. -/
inductive UsageFault
  /-- Nothing expects this argument. -/
  | unknownArgument (argument : String)
  /-- A value is missing, empty where it must not be, or not among those possible. -/
  | invalidValue (option value : String)
  /-- A value is not a number in range. -/
  | notANumber (option value : String)
  /-- An option is given twice. -/
  | repeated (option : String)
  /-- A value is given to an option that takes none. -/
  | needlessValue (option : String)
deriving DecidableEq, Repr

/-- What a command line can come to other than options. -/
inductive Stop
  | help (long : Bool)
  | version
  | refused (fault : UsageFault)
deriving DecidableEq, Repr

/-! ### Names -/

/-- What an option's name stands for. -/
inductive Name
  | valued (v : Valued)
  | switch (s : Switch)
  | help
  | version
deriving DecidableEq, Repr

/-- The long name of an option with a value. -/
def Valued.long : Valued → String
  | .commandLog => "commands"
  | .ioLog => "io-events"
  | .settingsFile => "config"
  | .format => "format"
  | .output => "output"
  | .batchSize => "batch-size"
  | .evenLabel => "even-label"
  | .oddLabel => "odd-label"

/-- The long name of an option without a value. -/
def Switch.long : Switch → String
  | .raw => "raw"
  | .debug => "debug"

/-- The long name of an option. -/
def Name.long : Name → String
  | .valued v => v.long
  | .switch s => s.long
  | .help => "help"
  | .version => "version"

/-- All options. -/
def Name.all : List Name :=
  [.valued .commandLog, .valued .ioLog, .valued .settingsFile, .valued .format, .valued .output,
    .valued .batchSize, .valued .evenLabel, .valued .oddLabel, .switch .raw, .switch .debug, .help, .version]

/-- The option with a long name. -/
def Name.ofLong? (long : String) : Option Name := Name.all.find? (·.long == long)

/-- The option with a one-letter name. -/
def Name.ofLetter? : Char → Option Name
  | 'C' => some (.valued .settingsFile)
  | 'o' => some (.valued .output)
  | 'h' => some .help
  | 'V' => some .version
  | _ => none

/-! ### Values -/

/-- The greatest number that an option can take, that of sixty-four bits. -/
def greatestNumber : Nat := 18446744073709551615

/-- The number that digits denote, if it is in range; a plus sign in front is allowed. -/
def number? (value : String) : Option Nat :=
  let ds := match value.toList with
    | '+' :: ds => ds
    | ds => ds
  if ds ≠ [] ∧ ds.all Char.isDigit then
    (some (ds.foldl (fun n d => 10 * n + (d.toNat - 48)) 0)).filter (· ≤ greatestNumber)
  else
    none

/-- Whether an option has been given. -/
def Options.has (o : Options) : Valued → Bool
  | .commandLog => o.commandLog.isSome
  | .ioLog => o.ioLog.isSome
  | .settingsFile => o.settingsFile.isSome
  | .format => o.format.isSome
  | .output => o.output.isSome
  | .batchSize => o.batchSize.isSome
  | .evenLabel => o.evenLabel.isSome
  | .oddLabel => o.oddLabel.isSome

/-- The path in a value, which may not be empty. -/
def pathValue (v : Valued) (value : String) : Except UsageFault String :=
  if value = "" then .error (.invalidValue v.long value) else .ok value

/-- The options with a value taken over. -/
def Options.put (o : Options) (v : Valued) (value : String) : Except UsageFault Options :=
  if o.has v then
    .error (.repeated v.long)
  else
    match v with
    | .commandLog => (pathValue v value).map fun p => { o with commandLog := some p }
    | .ioLog => (pathValue v value).map fun p => { o with ioLog := some p }
    | .settingsFile => (pathValue v value).map fun p => { o with settingsFile := some p }
    | .output => (pathValue v value).map fun p => { o with output := some p }
    | .format =>
      match Format.ofWord? value with
      | some f => .ok { o with format := some f }
      | none => .error (.invalidValue v.long value)
    | .batchSize =>
      match number? value with
      | some n => .ok { o with batchSize := some n }
      | none => .error (.notANumber v.long value)
    | .evenLabel => .ok { o with evenLabel := some value }
    | .oddLabel => .ok { o with oddLabel := some value }

/-- The options with a switch turned on. -/
def Options.turnOn (o : Options) : Switch → Except UsageFault Options
  | .raw => if o.raw then .error (.repeated Switch.raw.long) else .ok { o with raw := true }
  | .debug => if o.debug then .error (.repeated Switch.debug.long) else .ok { o with debug := true }

/-! ### Progress -/

/-- An option whose value stands in the next argument, and that value if it has been reached. -/
structure Pending where
  option : Valued
  value : Option String := none
deriving DecidableEq, Repr

/-- The options settled so far, and the one that is not. -/
structure Progress where
  options : Options := {}
  pending : Option Pending := none
deriving DecidableEq, Repr

/-- Takes over the pending option. -/
def Progress.settle (p : Progress) : Except UsageFault Options :=
  match p.pending with
  | none => .ok p.options
  | some ⟨v, none⟩ => .error (.invalidValue v.long "")
  | some ⟨v, some value⟩ => p.options.put v value

/-- Goes on with the options settled, or stops. -/
def settled (p : Progress) (f : Options → Except Stop Progress) : Except Stop Progress :=
  match p.settle with
  | .error fault => .error (.refused fault)
  | .ok o => f o

/-- Takes over options just made, or stops. -/
def progress : Except UsageFault Options → Except Stop Progress
  | .error fault => .error (.refused fault)
  | .ok o => .ok { options := o }

/-- An option with a value is met, together with its value or without. -/
def Progress.meetValued (p : Progress) (v : Valued) (value : Option String) : Except Stop Progress :=
  settled p fun o =>
    match value with
    | none => .ok ⟨o, some { option := v }⟩
    | some value => progress (o.put v value)

/-- An option is met by name, together with a value or without. -/
def Progress.meet (p : Progress) (argument : String) (name : Option Name) (value : Option String) :
    Except Stop Progress :=
  match name, value with
  | none, _ => .error (.refused (.unknownArgument argument))
  | some (.valued v), value => p.meetValued v value
  | some name, some _ => .error (.refused (.needlessValue name.long))
  | some (.switch s), none => settled p fun o => progress (o.turnOn s)
  | some .help, none => settled p fun _ => .error (.help true)
  | some .version, none => settled p fun _ => .error .version

/-! ### Arguments -/

/-- How an argument is written. -/
inductive Shape
  /-- Two hyphens alone: no option follows. -/
  | separator
  /-- Two hyphens, a name and perhaps a value after `=`. -/
  | long (name : String) (value : Option String)
  /-- One hyphen, a letter and what follows it. -/
  | short (letter : Char) (rest : List Char)
  /-- Anything else. -/
  | plain
deriving DecidableEq, Repr

/-- The characters before the first `=` and those after it. -/
def splitEquals : List Char → List Char × Option (List Char)
  | [] => ([], none)
  | '=' :: rest => ([], some rest)
  | c :: rest =>
    let (name, value) := splitEquals rest
    (c :: name, value)

/-- How an argument is written. -/
def Shape.ofArgument (argument : String) : Shape :=
  match argument.toList with
  | ['-', '-'] => .separator
  | '-' :: '-' :: rest =>
    let (name, value) := splitEquals rest
    .long (String.ofList name) (value.map String.ofList)
  | '-' :: letter :: rest => .short letter rest
  | _ => .plain

/-- The value written after an option's letter; an `=` in between is dropped. -/
def letterValue : List Char → Option String
  | [] => none
  | '=' :: rest => some (String.ofList rest)
  | rest => some (String.ofList rest)

/-- An option is met by its letter. -/
def Progress.meetLetter (p : Progress) (argument : String) (letter : Char) (rest : List Char) :
    Except Stop Progress :=
  match Name.ofLetter? letter with
  | some (.valued v) => p.meetValued v (letterValue rest)
  | some .help => settled p fun _ => .error (.help false)
  | some .version => settled p fun _ => .error .version
  | some (.switch _) | none => .error (.refused (.unknownArgument argument))

/-- An argument that is no option is met: it is the value of the pending option, if that lacks one. -/
def Progress.meetPlain (p : Progress) (argument : String) : Except Stop Progress :=
  match p.pending with
  | some ⟨s, none⟩ => .ok { p with pending := some ⟨s, some argument⟩ }
  | _ => .error (.refused (.unknownArgument argument))

/-- Reads the arguments from here on. -/
def readFrom (p : Progress) : List String → Except Stop Options
  | [] => p.settle.mapError .refused
  | argument :: rest =>
    match Shape.ofArgument argument with
    | .separator =>
      match rest with
      | [] => p.settle.mapError .refused
      | next :: _ => .error (.refused (.unknownArgument next))
    | .long name value =>
      match p.meet argument (Name.ofLong? name) value with
      | .error stop => .error stop
      | .ok p => readFrom p rest
    | .short letter letters =>
      match p.meetLetter argument letter letters with
      | .error stop => .error stop
      | .ok p => readFrom p rest
    | .plain =>
      match p.meetPlain argument with
      | .error stop => .error stop
      | .ok p => readFrom p rest

/-- The options that a command line asks for. -/
def read (arguments : List String) : Except Stop Options := readFrom {} arguments

end LogCorrelation.CommandLine
