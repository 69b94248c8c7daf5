import LogCorrelation.Settings.Basic
import LogCorrelation.Toml.Document

/-!
# Settings.Document — settings written as a document

Each setting has a key; a key that is absent leaves the default, and an unknown key or a value of the wrong kind
refuses the whole document.
-/

namespace LogCorrelation.Settings

/-- The settings with one key of a document taken over. -/
def put? (s : Settings) : String × Toml.Value → Option Settings
  | ("commands_path", .text path) => some { s with commandLog := path }
  | ("io_events_path", .text path) => some { s with ioLog := path }
  | ("batch_size", .integer n) => if 0 ≤ n then some { s with batchSize := n.toNat } else none
  | ("even_label", .text label) => some { s with evenLabel := label }
  | ("odd_label", .text label) => some { s with oddLabel := label }
  | ("correct_first_latency", .truth b) => some { s with fillFirst := b }
  | _ => none

/-- The settings that a document describes. -/
def ofDocument? (d : Toml.Document) : Option Settings := d.foldlM put? {}

/-- Reads settings from a text and checks them. -/
def read (text : String) : Except Fault Settings :=
  match (Toml.document? text).bind ofDocument? with
  | none => .error .notADocument
  | some s =>
    match s.check with
    | .error fault => .error fault
    | .ok () => .ok s

end LogCorrelation.Settings
