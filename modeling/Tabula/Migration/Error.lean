/-
# What can be wrong with a migration set

A `Refusal` is something that no migration set may hold, whether it is built in memory or read from
a document.  A `MigrationError` is any reason why a set cannot be read or planned.
-/
import Tabula.Json.Decoder
import Tabula.Migration.Change
import Tabula.Migration.Kind
import Tabula.Query.Error

namespace Tabula

open Tabula.Decimal Tabula.Query

/-- What no migration set may hold. -/
inductive Refusal where
  | conflictingSources
  | invalidFlags (kind : ChangeKind) (flags : ChangeFlags)
  | invalidSetVersion (version : UInt8)
deriving DecidableEq, Repr

/-- The wording of a refusal. -/
def Refusal.message : Refusal → String
  | conflictingSources => "Migration set needs exactly one of ordered migrations or a diff map"
  | invalidFlags kind flags =>
    "Schema diff of kind " ++ kind.title ++ " has sub-type " ++ flags.text
  | invalidSetVersion version => "Invalid migration set version: " ++ natText version.toNat

/-- Why a migration set cannot be read or planned. -/
inductive MigrationError where
  | refused (r : Refusal)
  | document (e : Json.DocumentError Refusal)
  | unreadable
  | unknownTable (table : String) (known : List String)
  | unknownColumn (table column : String) (known : List String)
  | unknownIndex (table index : String)
  | missingColumn (kind : Migration.Kind) (table : String)
  | unsupportedDiff (object : ObjectKind) (kind : ChangeKind)
  | query (e : QueryError)
deriving DecidableEq, Repr

/-- Names in brackets. -/
def namesText (names : List String) : String := "[" ++ String.intercalate ", " names ++ "]"

/-- The wording of an error. -/
def MigrationError.message : MigrationError → String
  | refused r => r.message
  | document .malformed => "Malformed document"
  | document (.refused r) => r.message
  | unreadable => "Unreadable document"
  | unknownTable table known =>
    "Unknown table '" ++ table ++ "', known tables: " ++ namesText known
  | unknownColumn table column known =>
    "Unknown column '" ++ column ++ "' in table '" ++ table ++ "', known columns: " ++
      namesText known
  | unknownIndex table index => "Unknown index '" ++ index ++ "' on table '" ++ table ++ "'"
  | missingColumn kind table =>
    kind.title ++ " migration on table '" ++ table ++ "' has no column name"
  | unsupportedDiff object kind => "Unsupported schema diff: " ++ object.title ++ " " ++ kind.title
  | query e => "Query error: " ++ e.message

end Tabula
