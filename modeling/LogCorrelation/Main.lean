import LogCorrelation.Program.Run
import LogCorrelation.Report.Drawing

/-!
# Main — the program on the real file system
-/

namespace LogCorrelation

/-- The system's words for an error. -/
def systemText (e : IO.Error) : String :=
  match e with
  | .noFileOrDirectory .. => Files.Fault.notFound.message
  | .inappropriateType _ code details => s!"{details} (os error {code})"
  | .permissionDenied _ code details => s!"{details} (os error {code})"
  | .resourceExhausted _ code details => s!"{details} (os error {code})"
  | .invalidArgument _ code details => s!"{details} (os error {code})"
  | e => toString e

/-- Turns a thrown error into the system's words. -/
def attempt {α : Type} (action : IO α) : IO (Except String α) := do
  try
    return .ok (← action)
  catch e =>
    return .error (systemText e)

/-- All bytes of an open file. -/
def readRest (handle : IO.FS.Handle) : IO (List UInt8) := do
  return (← handle.readBinToEnd).data.toList

/-- The host whose files are those of the system. -/
def systemHost : Program.Host IO where
  readFile path := attempt do readRest (← IO.FS.Handle.mk path .read)
  openLog path := do
    match ← attempt (IO.FS.Handle.mk path .read) with
    | .error cause => return .error cause
    | .ok handle =>
      match ← attempt (readRest handle) with
      | .error cause => return .ok [.fault cause]
      | .ok bytes => return .ok [.bytes bytes]
  writeFile path text := attempt (IO.FS.writeFile path text)

end LogCorrelation

/-- Runs the program: answers go to the standard output, complaints to the standard error. -/
def main (arguments : List String) : IO UInt32 := do
  let outcome ← LogCorrelation.Program.run LogCorrelation.Report.Press.own LogCorrelation.systemHost arguments
  IO.print outcome.stdout
  IO.eprint outcome.stderr
  return outcome.exitCode.toUInt32
