/-
# Kinds of migration

What a migration does, and what its kind alone decides: where it stands among other migrations, by
which name it is sorted, and whether it rebuilds its table.  Priorities put the creation of tables
first and their removal last.
-/
namespace Tabula.Migration

/-- What a migration does. -/
inductive Kind where
  | createTable
  | updatePrimaryKey
  | updateForeignKeys
  | changeDefault
  | addColumn
  | addUniqueColumn
  | addForeignKey
  | addUniqueIndex
  | addIndex
  | makeColumnUnique
  | copyTable
  | dropTable
deriving DecidableEq, Repr

namespace Kind

/-- All kinds. -/
def all : List Kind :=
  [createTable, updatePrimaryKey, updateForeignKeys, changeDefault, addColumn, addUniqueColumn,
   addForeignKey, addUniqueIndex, addIndex, makeColumnUnique, copyTable, dropTable]

/-- Where a migration stands, the lowest first.  Several kinds may share a place. -/
def priority : Kind → Nat
  | createTable => 0
  | updatePrimaryKey => 5
  | updateForeignKeys => 5
  | changeDefault => 6
  | addColumn => 10
  | addUniqueColumn => 10
  | addForeignKey => 19
  | addUniqueIndex => 30
  | addIndex => 30
  | makeColumnUnique => 30
  | copyTable => 40
  | dropTable => 100

/-- Whether a whole table is concerned; the others concern a column or an index. -/
def concernsTable : Kind → Bool
  | createTable => true
  | dropTable => true
  | copyTable => true
  | updatePrimaryKey => true
  | updateForeignKeys => true
  | _ => false

/-- Whether the table is rebuilt, since the engine cannot make the change in place. -/
def rebuilds : Kind → Bool
  | updatePrimaryKey => true
  | updateForeignKeys => true
  | changeDefault => true
  | addForeignKey => true
  | _ => false

/-- Whether a column is added. -/
def addsColumn : Kind → Bool
  | addColumn => true
  | addUniqueColumn => true
  | _ => false

/-- The name of a kind in records and reports. -/
def word : Kind → String
  | createTable => "CREATE_TABLE"
  | updatePrimaryKey => "UPDATE_PRIMARY_KEY"
  | updateForeignKeys => "UPDATE_FOREIGN_KEYS"
  | changeDefault => "CHANGE_DEFAULT_VALUE"
  | addColumn => "ALTER_TABLE_ADD_COLUMN"
  | addUniqueColumn => "ALTER_TABLE_ADD_UNIQUE"
  | addForeignKey => "ADD_FOREIGN_KEY_REFERENCE"
  | addUniqueIndex => "ADD_UNIQUE_INDEX"
  | addIndex => "ADD_INDEX"
  | makeColumnUnique => "MAKE_COLUMN_UNIQUE"
  | copyTable => "CREATE_TEMP_TABLE_FROM_EXISTING"
  | dropTable => "DROP_TABLE"

/-- The name of a kind in error messages. -/
def title : Kind → String
  | createTable => "CreateTable"
  | updatePrimaryKey => "UpdatePrimaryKey"
  | updateForeignKeys => "UpdateForeignKeys"
  | changeDefault => "ChangeDefaultValue"
  | addColumn => "AlterTableAddColumn"
  | addUniqueColumn => "AlterTableAddUnique"
  | addForeignKey => "AddForeignKeyReference"
  | addUniqueIndex => "AddUniqueIndex"
  | addIndex => "AddIndex"
  | makeColumnUnique => "MakeColumnUnique"
  | copyTable => "CreateTempTableFromExisting"
  | dropTable => "DropTable"

/-- The kinds by their names in records. -/
def words : List (String × Kind) := all.map fun k => (k.word, k)

theorem lookup_word (k : Kind) : words.lookup k.word = some k := by cases k <;> decide

end Kind
end Tabula.Migration
