/-
# Statements that change a schema

The statements that a migration is made of, as data, and the text of each.  Names are quoted
identifiers, except in the SELECT that copies rows, which qualifies plain column names by a plain
table name.  Constraints are stated in CREATE TABLE only: a column that is added later does not
carry its UNIQUE.
-/
import Tabula.Query.Request
import Tabula.Query.Statement
import Tabula.Schema.Basic

namespace Tabula.Schema

open Tabula.Query Tabula.Text

/-! ## 1. Parts -/

/-- A column definition.  `inline` says whether UNIQUE is part of it. -/
def Column.definition (c : Column) (inline : Bool) : String :=
  identifier c.name ++ " " ++ c.type.sql ++
    (if c.nullable then "" else " NOT NULL") ++
    (if inline && c.unique then " UNIQUE" else "") ++
    (match c.default.sql? with
      | some sql => " DEFAULT " ++ sql
      | none => "")

/-- A clause for an action, unless it is the one that needs none. -/
def KeyAction.clause (event : String) (a : KeyAction) : String :=
  if a = .noAction then "" else " ON " ++ event ++ " " ++ a.sql

/-- A foreign key of a table definition. -/
def ForeignKey.definition (k : ForeignKey) : String :=
  "FOREIGN KEY (" ++ identifierList k.columns ++ ") REFERENCES " ++ identifier k.table ++
    " (" ++ identifierList k.references ++ ")" ++
    k.onDelete.clause "DELETE" ++ k.onUpdate.clause "UPDATE"

/-- The primary key of a table definition, if there is one. -/
def Table.primaryKeyDefinition (t : Table) : List String :=
  if t.primaryKey = [] then [] else ["PRIMARY KEY (" ++ identifierList t.primaryKey ++ ")"]

/-- The parts of a table definition: columns, primary key, foreign keys. -/
def Table.definitions (t : Table) : List String :=
  t.columns.map (·.definition true) ++ t.primaryKeyDefinition ++
    t.foreignKeys.map ForeignKey.definition

/-! ## 2. Texts -/

/-- Creates a table. -/
def Table.createText (t : Table) : String :=
  "CREATE TABLE " ++ identifier t.name ++ " (" ++ String.intercalate ", " t.definitions ++ ")"

/-- Creates a table from what a SELECT gives. -/
def createTableAsText (name select : String) : String :=
  "CREATE TABLE " ++ identifier name ++ " AS " ++ select

/-- Drops a table, if there is one. -/
def dropTableText (name : String) : String := "DROP TABLE IF EXISTS " ++ identifier name

/-- Gives a table another name. -/
def renameTableText (old new : String) : String :=
  "ALTER TABLE " ++ identifier old ++ " RENAME TO " ++ identifier new

/-- Adds a column to a table. -/
def addColumnText (table : String) (c : Column) : String :=
  "ALTER TABLE " ++ identifier table ++ " ADD COLUMN " ++ c.definition false

/-- Creates an index on a table, unless there is one of its name. -/
def createIndexText (table : String) (i : Index) : String :=
  "CREATE " ++ (if i.unique then "UNIQUE " else "") ++ "INDEX IF NOT EXISTS " ++
    identifier i.name ++ " ON " ++ identifier table ++ " (" ++
    String.intercalate ", " (i.columns.map fun c => identifier c.1 ++ " " ++ c.2.text) ++ ")"

/-- The SELECT of columns of a table, in the order of its row identifiers. -/
def copySelect (source : String) (columns : List String) : Select :=
  { Select.ofQuery (Request.ofTable .select source).toEngine with
    projections := [⟨source, columns, false⟩] }

/-! ## 3. Statements -/

/-- A statement that changes a schema. -/
inductive Ddl where
  | createTable (t : Table)
  | createTableAs (name source : String) (columns : List String)
  | copyRows (table source : String) (columns : List String)
  | dropTable (name : String)
  | renameTable (old new : String)
  | addColumn (table : String) (c : Column)
  | createIndex (table : String) (i : Index)

namespace Ddl

/-- The statement as SQL. -/
def text : Ddl → String
  | createTable t => t.createText
  | createTableAs name source columns => createTableAsText name (copySelect source columns).text
  | copyRows table source columns =>
    "INSERT INTO " ++ identifier table ++ " (" ++ identifierList columns ++ ") " ++
      (copySelect source columns).text
  | dropTable name => dropTableText name
  | renameTable old new => renameTableText old new
  | addColumn table c => addColumnText table c
  | createIndex table i => createIndexText table i

/-- The statement to run.  It has no placeholders. -/
def statement (d : Ddl) : Statement := ⟨d.text, []⟩

end Ddl
end Tabula.Schema
