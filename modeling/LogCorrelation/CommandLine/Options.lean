import LogCorrelation.Settings.Basic

/-!
# CommandLine.Options — what a command line asks for

`Options` holds what was given, each option at most once.  `appliedTo` lays the options over settings: an option that
was given wins over the settings, and `--raw` turns off filling in the first latency.
-/

namespace LogCorrelation.CommandLine

/-- The format of a report. -/
inductive Format
  | text
  | json
  | csv
  | html
deriving DecidableEq, Repr

/-- All formats, in the order in which help lists them. -/
def Format.all : List Format := [.text, .json, .csv, .html]

/-- The word for a format. -/
def Format.word : Format → String
  | .text => "text"
  | .json => "json"
  | .csv => "csv"
  | .html => "html"

/-- The format that a word denotes, in lower case only. -/
def Format.ofWord? (word : String) : Option Format := Format.all.find? (·.word == word)

/-- The options that take no value. -/
inductive Switch
  | raw
  | debug
deriving DecidableEq, Repr

/-- The options that take a value. -/
inductive Valued
  | commandLog
  | ioLog
  | settingsFile
  | format
  | output
  | batchSize
  | evenLabel
  | oddLabel
deriving DecidableEq, Repr

/-- What a command line asks for. -/
structure Options where
  commandLog : Option String := none
  ioLog : Option String := none
  settingsFile : Option String := none
  format : Option Format := none
  output : Option String := none
  batchSize : Option Nat := none
  evenLabel : Option String := none
  oddLabel : Option String := none
  raw : Bool := false
  debug : Bool := false
deriving DecidableEq, Repr

namespace Options

/-- The format asked for; text if none is. -/
def chosenFormat (o : Options) : Format := o.format.getD .text

/-- Settings with the options laid over them. -/
def appliedTo (o : Options) (s : Settings) : Settings where
  commandLog := o.commandLog.getD s.commandLog
  ioLog := o.ioLog.getD s.ioLog
  batchSize := o.batchSize.getD s.batchSize
  evenLabel := o.evenLabel.getD s.evenLabel
  oddLabel := o.oddLabel.getD s.oddLabel
  fillFirst := s.fillFirst && !o.raw

end Options

end LogCorrelation.CommandLine
