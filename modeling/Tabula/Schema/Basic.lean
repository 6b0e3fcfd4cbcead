/-
# Table schemas

What a table looks like: its columns, its keys and its indexes.  Keys are kept on the table and
name columns.  Declared indexes stand beside the indexes that single columns ask for;
`Table.allIndexes` lists both.
-/
import Tabula.Query.Order
import Tabula.Text.Quoted

namespace Tabula.Schema

open Tabula.Query Tabula.Decimal

/-! ## 1. Columns -/

/-- The type of a column. -/
inductive ColumnType where
  | integer
  | bigInt
  | text
  | boolean
  | dateTime
  | real
  | numeric
  | blob
deriving DecidableEq, Repr

/-- The type as the engine names it.  Truth values are stored as numbers and dates as texts. -/
def ColumnType.sql : ColumnType → String
  | integer => "INTEGER"
  | bigInt => "INTEGER"
  | boolean => "INTEGER"
  | text => "TEXT"
  | dateTime => "TEXT"
  | real => "REAL"
  | numeric => "NUMERIC"
  | blob => "BLOB"

/-- The default of a column. -/
inductive DefaultValue where
  | absent
  | null
  | bool (b : Bool)
  | integer (n : Int64)
  | float (x : Float)
  | text (s : String)
  | expression (sql : String)

/-- The default as SQL, if there is one. -/
def DefaultValue.sql? : DefaultValue → Option String
  | absent => none
  | null => some "NULL"
  | bool b => some (Value.boolText b)
  | integer n => some (intText n.toInt)
  | float x => some (floatText x)
  | text s => some (Text.stringLiteral s)
  | expression sql => some ("(" ++ sql ++ ")")

/-- A column.  `accessor` is a second name to look it up by. -/
structure Column where
  name : String
  accessor : Option String
  type : ColumnType
  nullable : Bool
  default : DefaultValue
  unique : Bool
  indexed : Bool
  searchable : Bool
  orderable : Bool

namespace Column

/-- A column that may be NULL, and no more. -/
def plain (name : String) (type : ColumnType) : Column :=
  ⟨name, none, type, true, .absent, false, false, false, false⟩

/-- Whether a key is the name or the accessor of the column. -/
def hasKey (c : Column) (key : String) : Bool := c.name == key || c.accessor == some key

end Column

/-! ## 2. Keys and indexes -/

/-- What happens to a referencing row when the row it refers to changes. -/
inductive KeyAction where
  | noAction
  | restrict
  | cascade
  | setNull
  | setDefault
deriving DecidableEq, Repr

/-- The action as SQL. -/
def KeyAction.sql : KeyAction → String
  | noAction => "NO ACTION"
  | restrict => "RESTRICT"
  | cascade => "CASCADE"
  | setNull => "SET NULL"
  | setDefault => "SET DEFAULT"

/-- Columns that refer to columns of another table. -/
structure ForeignKey where
  columns : List String
  table : String
  references : List String
  onDelete : KeyAction
  onUpdate : KeyAction
deriving DecidableEq, Repr

/-- A foreign key of one column, without actions. -/
def ForeignKey.single (column table references : String) : ForeignKey :=
  ⟨[column], table, [references], .noAction, .noAction⟩

/-- An index over columns, each in its direction. -/
structure Index where
  name : String
  unique : Bool
  columns : List (String × Direction)
deriving DecidableEq, Repr

namespace Index

/-- An index over columns, each with its direction. -/
def ofColumns (name : String) (unique : Bool) (columns : List String)
    (directions : List Direction) : Except QueryError Index :=
  (pairUp .indexColumnsOrders columns directions).map fun ps => ⟨name, unique, ps⟩

/-- An index over one ascending column. -/
def single (name column : String) (unique : Bool) : Index := ⟨name, unique, [(column, .asc)]⟩

/-- Whether the index is over one of the columns. -/
def touches (i : Index) (columns : List String) : Bool :=
  i.columns.any fun c => columns.contains c.1

end Index

/-! ## 3. Tables -/

/-- A table. -/
structure Table where
  name : String
  columns : List Column
  primaryKey : List String
  foreignKeys : List ForeignKey
  indexes : List Index

/-- The name of the index that is kept for one column. -/
def columnIndexName (table column : String) : String := table ++ "_" ++ column ++ "_idx"

/-- The name of the unique index that is added for one column. -/
def uniqueIndexName (table column : String) : String := table ++ "_" ++ column ++ "_unique"

namespace Table

/-- A table without columns. -/
def empty (name : String) : Table := ⟨name, [], [], [], []⟩

/-- The names of the columns, in order. -/
def columnNames (t : Table) : List String := t.columns.map (·.name)

/-- The first column with a key. -/
def column? (t : Table) (key : String) : Option Column := t.columns.find? (·.hasKey key)

/-- The first declared index of a name. -/
def index? (t : Table) (name : String) : Option Index := t.indexes.find? (·.name == name)

/-- Whether a column is part of the primary key. -/
def inPrimaryKey (t : Table) (column : String) : Bool := t.primaryKey.contains column

/-- Whether a column is part of a foreign key. -/
def inForeignKey (t : Table) (column : String) : Bool :=
  t.foreignKeys.any fun k => k.columns.contains column

/-- Whether a column carries a constraint that only CREATE TABLE can state. -/
def isConstrained (t : Table) (c : Column) : Bool :=
  c.unique || t.inPrimaryKey c.name || t.inForeignKey c.name

/-- The index that a column asks for. -/
def columnIndex (t : Table) (column : String) : Index :=
  .single (columnIndexName t.name column) column false

/-- The unique index over one column. -/
def uniqueIndex (t : Table) (column : String) : Index :=
  .single (uniqueIndexName t.name column) column true

/-- Adds an index unless there is one of its name. -/
def addIndex (indexes : List Index) (i : Index) : List Index :=
  if indexes.any (·.name == i.name) then indexes else indexes ++ [i]

/-- The declared indexes, then those that columns ask for. -/
def allIndexes (t : Table) : List Index :=
  ((t.columns.filter (·.indexed)).map fun c => t.columnIndex c.name).foldl addIndex t.indexes

/-- The table without some columns and without the declared indexes over them. -/
def without (t : Table) (names : List String) : Table :=
  { t with
    columns := t.columns.filter fun c => !names.contains c.name
    indexes := t.indexes.filter fun i => !i.touches names }

end Table
end Tabula.Schema
