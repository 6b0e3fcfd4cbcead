/-
# Migrations

A migration names one change of one table.  Migrations are sorted before they are planned: by
priority, then by two names, then by kind and extras.  The first of the two names is that of the
table for migrations that concern a whole table, and that of the column for the others.  A missing
column name counts as an empty one.
-/
import Tabula.Migration.Error
import Tabula.Schema.Record

namespace Tabula

open Tabula.Json Tabula.Schema

/-- One change of one table. -/
structure Migration where
  kind : Migration.Kind
  table : String
  column : Option String
  extras : Dict String
deriving DecidableEq

namespace Migration

/-- The key of the extra that lists the columns a table had before. -/
def previousColumns : String := "previous_columns"

/-- The key of the extra that lists the foreign keys a table had before. -/
def previousForeignKeys : String := "previous_foreign_keys"

/-- A change of a whole table. -/
def ofTable (kind : Kind) (table : String) : Migration := ⟨kind, table, none, .empty⟩

/-- A change of a column or an index. -/
def ofColumn (kind : Kind) (table column : String) : Migration := ⟨kind, table, some column, .empty⟩

/-- Adds an extra. -/
def withExtra (m : Migration) (key value : String) : Migration :=
  { m with extras := m.extras.insert key value }

/-- The column name, which must be there. -/
def requireColumn (m : Migration) : Except MigrationError String :=
  match m.column with
  | some column => .ok column
  | none => .error (.missingColumn m.kind m.table)

/-- The migration in a report. -/
def text (m : Migration) : String :=
  m.kind.word ++ " " ++ m.table ++
    match m.column with
    | some column => "." ++ column
    | none => ""

/-! ## 1. Order -/

/-- The two names to sort by. -/
def sortNames (m : Migration) : String × String :=
  let column := m.column.getD ""
  if m.kind.concernsTable then (m.table, column) else (column, m.table)

/-- Compares two pairs by their first components, then by their second ones. -/
def comparePairs : String × String → String × String → Ordering :=
  compareLex (compareOn (·.1)) (compareOn (·.2))

/-- Compares by priority, names, kind and extras. -/
def compare : Migration → Migration → Ordering :=
  compareLex (compareOn (·.kind.priority)) <|
  compareLex (fun a b => comparePairs a.sortNames b.sortNames) <|
  compareLex (compareOn (·.kind.word)) <|
  fun a b => List.compareLex comparePairs a.extras.entries b.extras.entries

/-- Sorts migrations; those that compare as equal keep their order. -/
def sort (ms : List Migration) : List Migration :=
  ms.mergeSort fun a b => (compare a b).isLE

/-! ## 2. Records -/

/-- A migration as a record. -/
def json (m : Migration) : Json :=
  .fields <|
    [("type", .text m.kind.word), ("table_name", .text m.table)] ++
    (match m.column with
      | some column => [("column_name", .text column)]
      | none => []) ++
    (if m.extras.isEmpty then []
      else [("extras", .fields (m.extras.entries.map fun e => (e.1, .text e.2)))])

variable {ρ : Type}

/-- A kind of migration. -/
def decodeKind : Decoder ρ Kind := decodeWord Kind.words

/-- A migration from a record. -/
def decode (v : Json) : Except (DocumentError ρ) Migration := do
  let fs ← recordFields ["type", "table_name", "column_name", "extras"] v
  return {
    kind := ← fs.required "type" decodeKind
    table := ← fs.required "table_name" decodeText
    column := ← fs.optional "column_name" none (decodeOption decodeText)
    extras := ← fs.optional "extras" .empty (decodeDict decodeText) }

end Migration
end Tabula
