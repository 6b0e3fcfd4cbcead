/-
# Migration sets

A migration set is a schema to reach and the way there, which has one of two sources: a list of
migrations, or for each table a list of schema diffs.  Diffs are turned into migrations when they
are asked for (`MigrationSet.migrations`), and a diff that no migration can express is an error.

Tables are looked up by their key in the set first, and by name otherwise.
-/
import Tabula.Migration.Diff

namespace Tabula

open Tabula.Json Tabula.Schema

/-! ## 1. Sets -/

/-- How a set names its tables and columns: by their names, or by those of generated code. -/
inductive SetVersion where
  | names
  | accessors
deriving DecidableEq, Repr

namespace SetVersion

/-- The number of a version. -/
def number : SetVersion → UInt8
  | names => 1
  | accessors => 2

/-- The version of a number. -/
def ofNumber (n : UInt8) : Except Refusal SetVersion :=
  if n = 1 then .ok names
  else if n = 2 then .ok accessors
  else .error (.invalidSetVersion n)

end SetVersion

/-- Where the migrations of a set come from. -/
inductive MigrationSource where
  | ordered (migrations : List Migration)
  | diffs (diffs : Dict (List SchemaDiff))
deriving DecidableEq

/-- A schema to reach and the way there. -/
structure MigrationSet where
  source : MigrationSource
  target : Dict Table
  dbVersion : UInt32
  version : SetVersion

namespace MigrationSet

/-- A set from its parts, exactly one of the two sources among them. -/
def ofParts (ordered : Option (List Migration)) (diffs : Option (Dict (List SchemaDiff)))
    (target : Dict Table) (dbVersion : UInt32) (version : SetVersion) :
    Except Refusal MigrationSet :=
  match ordered, diffs with
  | some migrations, none => .ok ⟨.ordered migrations, target, dbVersion, version⟩
  | none, some diffs => .ok ⟨.diffs diffs, target, dbVersion, version⟩
  | _, _ => .error .conflictingSources

/-- Tables under their names; of tables with one name the last counts. -/
def keyedByName (tables : List Table) : Dict Table :=
  .ofList (tables.map fun t => (t.name, t))

/-- A set of migrations, with tables under their names. -/
def ofMigrations (migrations : List Migration) (tables : List Table) (dbVersion : UInt32) :
    MigrationSet :=
  ⟨.ordered migrations, keyedByName tables, dbVersion, .names⟩

/-- A set of diffs, with tables under their names. -/
def ofDiffs (diffs : Dict (List SchemaDiff)) (tables : List Table) (dbVersion : UInt32) :
    MigrationSet :=
  ⟨.diffs diffs, keyedByName tables, dbVersion, .names⟩

/-- The table with a key, else the first one with that name. -/
def table? (set : MigrationSet) (key : String) : Option Table :=
  set.target.get? key <|> set.target.values.find? (·.name == key)

/-- The table with a key or name, which must be there. -/
def table (set : MigrationSet) (key : String) : Except MigrationError Table :=
  match set.table? key with
  | some t => .ok t
  | none => .error (.unknownTable key set.target.keys)

end MigrationSet

/-- The column with a key, which must be there. -/
def Schema.Table.column (t : Table) (key : String) : Except MigrationError Column :=
  match t.column? key with
  | some c => .ok c
  | none => .error (.unknownColumn t.name key t.columnNames)

/-! ## 2. Diffs as migrations -/

namespace SchemaDiff

/-- No migration can express the diff. -/
def unsupported {α : Type} (d : SchemaDiff) : Except MigrationError α :=
  .error (.unsupportedDiff d.object d.kind)

/-- The name of the object, which must be there. -/
def requireName (d : SchemaDiff) : Except MigrationError String :=
  match d.name? with
  | some name => .ok name
  | none => d.unsupported

/-- The column of a table that the diff names. -/
def columnOf (d : SchemaDiff) (t : Table) : Except MigrationError Column := do
  t.column (← d.requireName)

/-- The index of a table that the diff names. -/
def indexOf (d : SchemaDiff) (t : Table) : Except MigrationError Index := do
  let name ← d.requireName
  match t.index? name with
  | some i => return i
  | none => .error (.unknownIndex t.name name)

/-- The migrations for a column that stayed: a new default rebuilds the table, a new UNIQUE adds an
index. -/
def columnChanges (d : SchemaDiff) (t : Table) (c : Column) : List Migration :=
  (if d.flags.contains .default then
    [d.copyExtras (.ofColumn .changeDefault t.name c.name)] else []) ++
  (if d.flags.contains .constraint && c.unique then
    [.ofColumn .makeColumnUnique t.name c.name] else [])

/-- The migrations for a diff of a table that is part of the target. -/
def migrationsFor (d : SchemaDiff) (t : Table) : Except MigrationError (List Migration) :=
  match d.object, d.kind with
  | .table, .created => .ok [.ofTable .createTable t.name]
  | .column, .created => do
    let c ← d.columnOf t
    return [.ofColumn (if c.unique then .addUniqueColumn else .addColumn) t.name c.name]
  | .column, .changed => do
    let changes := d.columnChanges t (← d.columnOf t)
    if changes = [] then d.unsupported else return changes
  | .primaryKey, _ => .ok [d.copyExtras (.ofTable .updatePrimaryKey t.name)]
  | .foreignKey, _ => .ok [d.copyExtras (.ofTable .updateForeignKeys t.name)]
  | .index, .created => do
    let i ← d.indexOf t
    return [.ofColumn (if i.unique then .addUniqueIndex else .addIndex) t.name i.name]
  | _, _ => d.unsupported

/-- The migrations for a diff under a table key.  A table that is gone need not be part of the
target: its name stands in the diff, else it is the key. -/
def migrations (d : SchemaDiff) (set : MigrationSet) (key : String) :
    Except MigrationError (List Migration) :=
  if d.object = .table ∧ d.kind = .dropped then
    .ok [.ofTable .dropTable (d.name?.getD key)]
  else do
    d.migrationsFor (← set.table key)

end SchemaDiff

namespace MigrationSet

/-- The migrations for diffs, in the order of their table keys. -/
def lower (set : MigrationSet) (diffs : Dict (List SchemaDiff)) :
    Except MigrationError (List Migration) := do
  let entries := diffs.entries.flatMap fun e => e.2.map fun d => (e.1, d)
  let migrations ← entries.mapM fun e => e.2.migrations set e.1
  return migrations.flatten

/-- The migrations of the set. -/
def migrations (set : MigrationSet) : Except MigrationError (List Migration) :=
  match set.source with
  | .ordered migrations => .ok migrations
  | .diffs diffs => set.lower diffs

/-! ## 3. Records -/

/-- The source of a set, as a field of its record. -/
def sourceField : MigrationSource → String × Json
  | .ordered migrations => ("ordered_migrations", .array (migrations.map Migration.json))
  | .diffs diffs =>
    ("diff_map", .fields (diffs.entries.map fun e => (e.1, .array (e.2.map SchemaDiff.json))))

/-- A set as a record. -/
def json (set : MigrationSet) : Json :=
  .fields [sourceField set.source,
    ("target_schema", .fields (set.target.entries.map fun e => (e.1, e.2.json))),
    ("db_version", .nat set.dbVersion.toNat), ("set_version", .nat set.version.number.toNat)]

/-- The fields of a set that were read so far; those that are missing have their defaults. -/
structure Draft where
  ordered : Option (List Migration)
  diffs : Option (Dict (List SchemaDiff))
  target : Dict Table
  dbVersion : UInt32
  version : SetVersion

/-- Nothing read yet. -/
def Draft.start : Draft := ⟨none, none, .empty, 0, .names⟩

/-- Lists of diffs under table keys. -/
def decodeDiffs : Decoder Refusal (Dict (List SchemaDiff)) :=
  decodeDict (decodeList SchemaDiff.decode)

/-- A version number. -/
def decodeVersion (v : Json) : Except (DocumentError Refusal) SetVersion := do
  let n ← decodeNat UInt8.size v
  (SetVersion.ofNumber (UInt8.ofNat n)).mapError .refused

/-- Tables under their keys, inside `level` arrays and objects. -/
def decodeTarget {ρ : Type} (level : Nat) : Decoder ρ (Dict Table) :=
  decodeDict (Table.decode (level + 1))

/-- Reads one field. -/
def Draft.read (d : Draft) (name : String) (v : Json) : Except (DocumentError Refusal) Draft := do
  match name with
  | "ordered_migrations" =>
    return { d with ordered := ← decodeOption (decodeList Migration.decode) v }
  | "diff_map" => return { d with diffs := ← decodeOption decodeDiffs v }
  | "target_schema" => return { d with target := ← decodeTarget 1 v }
  | "db_version" => return { d with dbVersion := UInt32.ofNat (← decodeNat UInt32.size v) }
  | "set_version" => return { d with version := ← decodeVersion v }
  | _ => return d

/-- A set from a record.  Fields are read in document order; that there is exactly one source is
asked at the end. -/
def decode (v : Json) : Except (DocumentError Refusal) MigrationSet := do
  let d ← takeRecord
    ["ordered_migrations", "diff_map", "target_schema", "db_version", "set_version"]
    Draft.read Draft.start v
  (ofParts d.ordered d.diffs d.target d.dbVersion d.version).mapError .refused

/-- Reads a set from a document. -/
def ofText (text : String) : Except MigrationError MigrationSet :=
  (decodeDocument decode text).mapError .document

/-- Reads a set from the bytes of a file, if there is one. -/
def ofBytes : Option ByteArray → Except MigrationError MigrationSet
  | some bytes =>
    match String.fromUTF8? bytes with
    | some text => ofText text
    | none => .error .unreadable
  | none => .error .unreadable

end MigrationSet
end Tabula
