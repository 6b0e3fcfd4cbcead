/-
# The command line

Reads the file that holds a migration set and prints the report that is asked for.
-/
import Tabula.Report

/-- The bytes of a file, if it can be read. -/
def Tabula.readFile? (path : String) : IO (Option ByteArray) := do
  try
    return some (← IO.FS.readBinFile path)
  catch _ =>
    return none

/-- Runs one command. -/
def main (args : List String) : IO UInt32 := do
  match Tabula.Report.Invocation.ofArgs? args with
  | none =>
    IO.eprint Tabula.Report.usage
    return 2
  | some invocation =>
    let outcome := Tabula.Report.run invocation.command (← Tabula.readFile? invocation.input)
    IO.print outcome.output
    IO.eprint outcome.complaint
    return outcome.code
