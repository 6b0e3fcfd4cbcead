/-
# Table records

Table schemas as JSON records, both ways.  A record is written with its fields in a fixed order;
an accessor that is missing is left out, everything else is always there.

Records of an older kind keep keys on the columns: a mark that the column is part of the primary
key, or the one column that it refers to.  Such keys are moved to the table when the record is
read (`Table.withColumnKeys`), after the keys that the table lists itself, unless they are listed
already.
-/
import Tabula.Json.Decoder
import Tabula.Json.Printer
import Tabula.Schema.Basic

namespace Tabula.Schema

open Tabula.Json Tabula.Query Tabula.Decimal

/-! ## 1. Words -/

namespace ColumnType

/-- The types and their names in records. -/
def words : List (String × ColumnType) :=
  [("Integer", integer), ("BigInt", bigInt), ("Text", text), ("Boolean", boolean),
   ("DateTime", dateTime), ("Real", real), ("Numeric", numeric), ("Blob", blob)]

/-- The name of a type in records. -/
def word : ColumnType → String
  | integer => "Integer"
  | bigInt => "BigInt"
  | text => "Text"
  | boolean => "Boolean"
  | dateTime => "DateTime"
  | real => "Real"
  | numeric => "Numeric"
  | blob => "Blob"

theorem lookup_word (t : ColumnType) : words.lookup t.word = some t := by cases t <;> decide

end ColumnType

namespace KeyAction

/-- The actions and their names in records. -/
def words : List (String × KeyAction) :=
  [("NoAction", noAction), ("Restrict", restrict), ("Cascade", cascade), ("SetNull", setNull),
   ("SetDefault", setDefault)]

/-- The name of an action in records. -/
def word : KeyAction → String
  | noAction => "NoAction"
  | restrict => "Restrict"
  | cascade => "Cascade"
  | setNull => "SetNull"
  | setDefault => "SetDefault"

theorem lookup_word (a : KeyAction) : words.lookup a.word = some a := by cases a <;> decide

end KeyAction

/-- The directions and their names in records. -/
def directionWords : List (String × Direction) := [("Asc", .asc), ("Desc", .desc)]

/-- The name of a direction in records. -/
def directionWord : Direction → String
  | .asc => "Asc"
  | .desc => "Desc"

theorem lookup_directionWord (d : Direction) :
    directionWords.lookup (directionWord d) = some d := by cases d <;> decide

/-! ## 2. Writing -/

/-- How floats are written in records: shortest digits, an exponent outside -5 to 15, always a
fraction or an exponent, and of two nearest decimals the even one. -/
def recordStyle : NumeralStyle := ⟨fun e => -5 ≤ e && e < 16, true, .even⟩

/-- A float; what is not finite is null. -/
def floatJson (x : Float) : Json :=
  match recordStyle.ofFloat? x with
  | some n => .number n
  | none => .null

/-- A default. -/
def DefaultValue.json : DefaultValue → Json
  | absent => .text "None"
  | null => .text "Null"
  | bool b => .fields [("Bool", .bool b)]
  | integer n => .fields [("Integer", .number (.ofInt n.toInt))]
  | float x => .fields [("Float", floatJson x)]
  | text s => .fields [("String", .text s)]
  | expression sql => .fields [("Expression", .text sql)]

/-- A column. -/
def Column.json (c : Column) : Json :=
  .fields <|
    [("name", .text c.name)] ++
    (match c.accessor with
      | some accessor => [("accessor", .text accessor)]
      | none => []) ++
    [("sql_type", .text c.type.word), ("nullable", .bool c.nullable), ("default", c.default.json),
     ("unique", .bool c.unique), ("index", .bool c.indexed), ("searchable", .bool c.searchable),
     ("orderable", .bool c.orderable)]

/-- A foreign key. -/
def ForeignKey.json (k : ForeignKey) : Json :=
  .fields [("columns", .texts k.columns), ("references_table", .text k.table),
    ("references_columns", .texts k.references), ("on_delete", .text k.onDelete.word),
    ("on_update", .text k.onUpdate.word)]

/-- An index. -/
def Index.json (i : Index) : Json :=
  .fields [("name", .text i.name), ("unique", .bool i.unique),
    ("columns", .array (i.columns.map fun c => .texts [c.1, directionWord c.2]))]

/-- A table. -/
def Table.json (t : Table) : Json :=
  .fields [("name", .text t.name), ("columns", .array (t.columns.map Column.json)),
    ("primary_key", .texts t.primaryKey),
    ("foreign_keys", .array (t.foreignKeys.map ForeignKey.json)),
    ("indexes", .array (t.indexes.map Index.json))]

/-! ## 3. Reading -/

variable {ρ : Type}

/-- A word inside a column.  Besides null, an empty object may stand for the value that a word does
not have. -/
def decodeHeldWord {α : Type} (words : List (String × α)) : Decoder ρ α
  | .object [(some word, .object [])] => require (words.lookup word)
  | v => decodeWord words v

/-- An integer of 64 bits. -/
def decodeInt64 (v : Json) : Except (DocumentError ρ) Int64 :=
  (decodeInt Int64.minValue.toInt Int64.maxValue.toInt v).map Int64.ofInt

/-- The defaults that are words. -/
def DefaultValue.words : List (String × DefaultValue) := [("None", absent), ("Null", null)]

/-- A default: a word, or an object with one key that says what its value is. -/
def DefaultValue.decode : Decoder ρ DefaultValue
  | .object [(some "Bool", v)] => (decodeBool v).map bool
  | .object [(some "Integer", v)] => (decodeInt64 v).map integer
  | .object [(some "Float", v)] => (decodeFloat v).map float
  | .object [(some "String", v)] => (decodeText v).map text
  | .object [(some "Expression", v)] => (decodeText v).map expression
  | v => decodeHeldWord words v

/-- An action. -/
def KeyAction.decode : Decoder ρ KeyAction := decodeWord words

/-- A foreign key. -/
def ForeignKey.decode (v : Json) : Except (DocumentError ρ) ForeignKey := do
  let fs ← recordFields
    ["columns", "references_table", "references_columns", "on_delete", "on_update"] v
  return {
    columns := ← fs.required "columns" (decodeList decodeText)
    table := ← fs.required "references_table" decodeText
    references := ← fs.required "references_columns" (decodeList decodeText)
    onDelete := ← fs.optional "on_delete" .noAction KeyAction.decode
    onUpdate := ← fs.optional "on_update" .noAction KeyAction.decode }

/-- A column of an index: its name and its direction. -/
def decodeIndexColumn : Decoder ρ (String × Direction)
  | .array [name, direction] => do
    return (← decodeText name, ← decodeWord directionWords direction)
  | _ => malformed

/-- An index. -/
def Index.decode (v : Json) : Except (DocumentError ρ) Index := do
  let fs ← recordFields ["name", "unique", "columns"] v
  return {
    name := ← fs.required "name" decodeText
    unique := ← fs.required "unique" decodeBool
    columns := ← fs.required "columns" (decodeList decodeIndexColumn) }

/-- The column that a column of an older record refers to. -/
structure ColumnReference where
  table : String
  column : String
  onDelete : KeyAction
  onUpdate : KeyAction
deriving DecidableEq, Repr

/-- A reference of a column. -/
def ColumnReference.decode (v : Json) : Except (DocumentError ρ) ColumnReference := do
  let fs ← recordFields ["table", "column", "on_delete", "on_update"] v
  return {
    table := ← fs.required "table" decodeText
    column := ← fs.required "column" decodeText
    onDelete := ← fs.optional "on_delete" .noAction KeyAction.decode
    onUpdate := ← fs.optional "on_update" .noAction KeyAction.decode }

/-- A column with the keys that an older record keeps on it. -/
structure KeyedColumn where
  column : Column
  inPrimaryKey : Bool
  reference : Option ColumnReference

/-- The levels of arrays and objects that a document may have around and in what is held. -/
def maxLevels : Nat := 127

/-- A column record inside `level` arrays and objects.  It must be an object. -/
def KeyedColumn.decode (level : Nat) (v : Json) : Except (DocumentError ρ) KeyedColumn := do
  let fs ← heldFields
    ["name", "accessor", "sql_type", "nullable", "default", "unique", "index", "searchable",
     "orderable", "primary_key", "foreign_key"] (maxLevels - (level + 1)) v
  return {
    column := {
      name := ← fs.required "name" decodeText
      accessor := ← fs.optional "accessor" none (decodeOption decodeText)
      type := ← fs.required "sql_type" (decodeHeldWord ColumnType.words)
      nullable := ← fs.optional "nullable" true decodeBool
      default := ← fs.optional "default" .absent DefaultValue.decode
      unique := ← fs.optional "unique" false decodeBool
      indexed := ← fs.optional "index" false decodeBool
      searchable := ← fs.optional "searchable" false decodeBool
      orderable := ← fs.optional "orderable" false decodeBool }
    inPrimaryKey := ← fs.optional "primary_key" false decodeBool
    reference := ← fs.optional "foreign_key" none (decodeOption ColumnReference.decode) }

/-! ## 4. Keys kept on columns -/

/-- The foreign key that a reference of a column amounts to. -/
def ColumnReference.foreignKey (r : ColumnReference) (column : String) : ForeignKey :=
  ⟨[column], r.table, [r.column], r.onDelete, r.onUpdate⟩

/-- Adds an element at the end, unless it is there. -/
def addNew {α : Type} [DecidableEq α] (xs : List α) (x : α) : List α :=
  if x ∈ xs then xs else xs ++ [x]

/-- Adds a column, and its keys to those of the table. -/
def Table.addKeyedColumn (t : Table) (c : KeyedColumn) : Table :=
  { t with
    columns := t.columns ++ [c.column]
    primaryKey := if c.inPrimaryKey then addNew t.primaryKey c.column.name else t.primaryKey
    foreignKeys :=
      match c.reference with
      | some r => addNew t.foreignKeys (r.foreignKey c.column.name)
      | none => t.foreignKeys }

/-- The table with columns that bring their own keys. -/
def Table.withColumnKeys (t : Table) (columns : List KeyedColumn) : Table :=
  columns.foldl addKeyedColumn t

/-- A table record inside `level` arrays and objects. -/
def Table.decode (level : Nat) (v : Json) : Except (DocumentError ρ) Table := do
  let fs ← recordFields ["name", "columns", "primary_key", "foreign_keys", "indexes"] v
  let columns ← fs.required "columns" (decodeList (KeyedColumn.decode (level + 2)))
  let table : Table := {
    name := ← fs.required "name" decodeText
    columns := []
    primaryKey := ← fs.optional "primary_key" [] (decodeList decodeText)
    foreignKeys := ← fs.optional "foreign_keys" [] (decodeList ForeignKey.decode)
    indexes := ← fs.optional "indexes" [] (decodeList Index.decode) }
  return table.withColumnKeys columns

end Tabula.Schema
