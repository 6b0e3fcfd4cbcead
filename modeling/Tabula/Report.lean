/-
# Reports

What the command line prints about a migration set: its statements, or its plan.  A set that cannot
be read or planned has no report.
-/
import Tabula.Migration.Plan

namespace Tabula.Report

open Tabula.Decimal

/-- What is asked for. -/
inductive Command where
  | sql
  | plan
deriving DecidableEq, Repr

/-- Each statement on a line, with a semicolon. -/
def statementLines (statements : List Schema.Ddl) : List String :=
  statements.map fun s => s.text ++ ";"

/-- A step of a plan on a line. -/
def stepLine (s : PlanStep) : String :=
  match s.action with
  | .covered => " [-] " ++ s.migration.text ++ " (covered by CREATE TABLE)"
  | .carriedOut deed =>
    " [X] " ++ s.migration.text ++ " (" ++ natText deed.statements.length ++ " statements)"

/-- A rule of sixty hyphens. -/
def rule : String := String.ofList (List.replicate 60 '-')

/-- The plan, between empty lines. -/
def planLines (set : MigrationSet) (steps : List PlanStep) : List String :=
  ["", "Migration plan (db version " ++ natText set.dbVersion.toNat ++ "):", rule] ++
    steps.map stepLine ++ [""]

/-- The lines of the report. -/
def lines (set : MigrationSet) : Command → Except MigrationError (List String)
  | .sql => do return statementLines (← set.compile)
  | .plan => do return planLines set (← set.plan)

/-- The report on the migration set in the bytes of a file, if there is one. -/
def ofBytes (command : Command) (bytes : Option ByteArray) : Except MigrationError String := do
  let set ← MigrationSet.ofBytes bytes
  return String.join ((← lines set command).map (· ++ "\n"))

/-- What a run leaves behind: an exit code, the printed report, and a complaint if there is none. -/
structure Outcome where
  code : UInt32
  output : String
  complaint : String
deriving DecidableEq, Repr

/-- Runs a command on the bytes of a file.  Without a report the exit code is one. -/
def run (command : Command) (bytes : Option ByteArray) : Outcome :=
  match ofBytes command bytes with
  | .ok text => ⟨0, text, ""⟩
  | .error e => ⟨1, "", "Error: " ++ e.message ++ "\n"⟩

/-! ## Invocations -/

/-- A command, and the path of the file that holds the migration set. -/
structure Invocation where
  command : Command
  input : String
deriving DecidableEq, Repr

/-- The command that a word names. -/
def Command.ofWord? : String → Option Command
  | "sql" => some sql
  | "plan" => some plan
  | _ => none

/-- Reads options, among them the path, and then the command, which comes last. -/
def Invocation.read? : Option String → List String → Option Invocation
  | none, "-i" :: path :: rest => read? (some path) rest
  | none, "--input" :: path :: rest => read? (some path) rest
  | input, "-v" :: rest => read? input rest
  | input, "--verbose" :: rest => read? input rest
  | some input, [word] => (Command.ofWord? word).map fun command => ⟨command, input⟩
  | _, _ => none

/-- The invocation that command line arguments ask for. -/
def Invocation.ofArgs? (args : List String) : Option Invocation := read? none args

/-- How to invoke the program. -/
def usage : String := "Usage: tabula --input <INPUT> [--verbose] <sql|plan>\n"

end Tabula.Report
