import LogCorrelation.CommandLine.Options

/-!
# CommandLine.Help — the help and version texts

Help lists one entry for each option, either in a line or, in the long form, in a paragraph.
-/

namespace LogCorrelation.CommandLine

/-- The name of the program. -/
def programName : String := "benchcorr"

/-- The version of the program and of its report documents. -/
def version : String := "0.1.0"

/-- The text that `--version` prints. -/
def versionText : String := s!"{programName} {version}\n"

/-- What help says about an option. -/
structure HelpEntry where
  /-- The option as it is written, indented. -/
  option : String
  /-- What the line of the short form says. -/
  short : String
  /-- The lines of the paragraph of the long form, all indented but the empty ones that are `none`. -/
  long : List (Option String)

/-- An entry that says the same in both forms. -/
def HelpEntry.same (option text : String) : HelpEntry := ⟨option, text, [some text]⟩

/-- What a format is for. -/
def Format.purpose : Format → String
  | .text => "Human-readable text format (default)"
  | .json => "JSON format for machine parsing"
  | .csv => "CSV format for spreadsheet analysis"
  | .html => "HTML report with embedded charts"

/-- The entries of all options. -/
def helpEntries : List HelpEntry :=
  [.same "      --commands <PATH>" "Command timestamp log [default: bench/timestamps.txt]",
    .same "      --io-events <PATH>" "I/O event timestamp log [default: bench/io_timestamps.txt]",
    .same "  -C, --config <FILE>" "TOML configuration file; flags override its values",
    ⟨"      --format <FORMAT>",
      "Output format [default: text] [possible values: " ++ ", ".intercalate (Format.all.map (·.word)) ++ "]",
      [some "Output format", none, some "Possible values:"] ++
        Format.all.map (fun f => some ("- " ++ (f.word ++ ":").pushn ' ' (5 - f.word.length) ++ f.purpose)) ++
        [some "", some "[default: text]"]⟩,
    .same "  -o, --output <FILE>" "Write the report to a file instead of stdout",
    .same "      --raw" "Keep the first latency undefined instead of copying index 2",
    .same "      --batch-size <N>" "Commands per command timestamp (report titles only)",
    .same "      --even-label <LABEL>" "Label for even-index batches",
    .same "      --odd-label <LABEL>" "Label for odd-index batches",
    .same "      --debug" "Enable debug tracing to stderr",
    ⟨"  -h, --help", "Print help (see more with '--help')", [some "Print help (see a summary with '-h')"]⟩,
    .same "  -V, --version" "Print version"]

/-- What both forms begin with. -/
def helpHead : String :=
  "Correlate benchmark command timestamps with I/O event timestamps\n\n" ++
    s!"Usage: {programName} [OPTIONS]\n\nOptions:\n"

/-- The column at which the short form says what an option is for. -/
def helpColumn : Nat := 28

/-- An entry as one line. -/
def HelpEntry.line (e : HelpEntry) : String :=
  e.option.pushn ' ' (helpColumn - e.option.length) ++ e.short ++ "\n"

/-- An entry as a paragraph. -/
def HelpEntry.paragraph (e : HelpEntry) : String :=
  e.option ++ "\n" ++ String.join (e.long.map fun line => (line.elim "" ("          " ++ ·)) ++ "\n")

/-- The help text, in the long or the short form. -/
def helpText (long : Bool) : String :=
  helpHead ++
    if long then "\n".intercalate (helpEntries.map (·.paragraph)) else String.join (helpEntries.map (·.line))

end LogCorrelation.CommandLine
