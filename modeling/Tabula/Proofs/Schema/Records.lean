/-
# Table records are restored

A record may keep keys on columns, as older ones do; it is read as it is written, with each key
where it stands (`restores_keyedTable`).  A table is written without such keys, so that reading it
back moves no key and finds every list as it was (`restores_table`).  The one value that may not
come back is a float: its record holds the shortest numeral, and whether that numeral reads as the
float again is a matter of the reader's arithmetic (`ReadsBack`).  Everything else is restored as
it is.
-/
import Tabula.Proofs.Decimal.Finite
import Tabula.Proofs.Json.Decoding
import Tabula.Schema.Record

namespace Tabula.Schema

open Tabula.Json Tabula.Decimal Tabula.Query

variable {ρ : Type}

/-! ## 1. Floats -/

/-- Reading the numeral that a record holds for the float gives the float back. -/
def ReadsBack (x : Float) : Prop := ∀ n, recordStyle.ofFloat? x = some n → n.toFloat? = some x

theorem restores_float {x : Float} (hx : x.isFinite) (h : ReadsBack x) :
    Restores floatJson (decodeFloat (ρ := ρ)) x := by
  obtain ⟨negative, magnitude, hreading⟩ := exists_ofFloat_eq_finite hx
  have hstyle : recordStyle.ofFloat? x = some (recordStyle.numeral negative magnitude) := by
    simp [NumeralStyle.ofFloat?, hreading]
  constructor
  · simp [floatJson, hstyle]
  · simp [floatJson, hstyle, decodeFloat, h _ hstyle, require]

/-- Not every float is restored: its numeral may have more digits than the reader takes exactly. -/
example : ¬ReadsBack 0.010986235635812603 := by
  intro h
  have hread := h ⟨false, 0, [0, 1, 0, 9, 8, 6, 2, 3, 5, 6, 3, 5, 8, 1, 2, 6, 0, 3], none⟩
    (by decide +kernel)
  exact absurd hread (by decide +kernel)

theorem readsBack_two_and_a_half : ReadsBack 2.5 := by
  intro n hn
  have hnumeral : recordStyle.ofFloat? 2.5 = some ⟨false, 2, [5], none⟩ := by decide +kernel
  obtain rfl := Option.some.inj (hnumeral.symm.trans hn)
  decide +kernel

/-- The floats of a default. -/
def DefaultValue.floats : DefaultValue → List Float
  | float x => [x]
  | _ => []

/-- The floats of a table. -/
def Table.floats (t : Table) : List Float := t.columns.flatMap (·.default.floats)

-- Floats are compared by their bits, so tables that were read can be compared by evaluation.
deriving instance DecidableEq for DefaultValue
deriving instance DecidableEq for Column
deriving instance DecidableEq for Table

/-! ## 2. Keys and indexes -/

theorem restores_keyAction (a : KeyAction) :
    Restores (fun a => .text (KeyAction.word a)) (KeyAction.decode (ρ := ρ)) a :=
  restores_word (KeyAction.lookup_word a)

theorem restores_foreignKey (k : ForeignKey) :
    Restores ForeignKey.json (ForeignKey.decode (ρ := ρ)) k where
  writable := by simp [ForeignKey.json, (restores_texts (ρ := ρ) _).writable]
  decoded := by
    refine bind_eq_ok.mpr ⟨_, recordFields_fields _ rfl (.refl _) (by decide), ?_⟩
    simp [Fields.required, Fields.optional, List.lookup, (restores_text _).decoded,
      (restores_texts _).decoded, (restores_keyAction _).decoded]

theorem restores_indexColumn (c : String × Direction) :
    Restores (fun c => .texts [c.1, directionWord c.2]) (decodeIndexColumn (ρ := ρ)) c where
  writable := (restores_texts (ρ := ρ) _).writable
  decoded := by
    simp [texts, decodeIndexColumn, (restores_text _).decoded,
      (restores_word (lookup_directionWord _)).decoded]

theorem restores_index (i : Index) : Restores Index.json (Index.decode (ρ := ρ)) i := by
  have hcolumns := restores_list fun c (_ : c ∈ i.columns) => restores_indexColumn (ρ := ρ) c
  constructor
  · simp [Index.json, hcolumns.writable]
  · refine bind_eq_ok.mpr ⟨_, recordFields_fields _ rfl (.refl _) (by decide), ?_⟩
    simp [Fields.required, List.lookup, (restores_text _).decoded, (restores_bool _).decoded,
      hcolumns.decoded]

/-! ## 3. Columns -/

theorem decodeInt64_ofInt (n : Int64) :
    decodeInt64 (ρ := ρ) (.number (.ofInt n.toInt)) = .ok n := by
  rw [decodeInt64, decodeInt_ofInt ⟨Int64.minValue_le_toInt n, Int64.toInt_le n⟩]
  simp

theorem restores_default {d : DefaultValue} (hfinite : ∀ x ∈ d.floats, x.isFinite)
    (hreads : ∀ x ∈ d.floats, ReadsBack x) :
    Restores DefaultValue.json (DefaultValue.decode (ρ := ρ)) d := by
  cases d with
  | absent => exact ⟨isWritable_text _, rfl⟩
  | null => exact ⟨isWritable_text _, rfl⟩
  | bool b => exact ⟨by simp [DefaultValue.json], rfl⟩
  | integer n =>
    refine ⟨by simp [DefaultValue.json], ?_⟩
    simp [DefaultValue.json, fields, DefaultValue.decode, decodeInt64_ofInt]
  | float x =>
    have hx : Restores floatJson (decodeFloat (ρ := ρ)) x :=
      restores_float (hfinite x (by simp [DefaultValue.floats]))
        (hreads x (by simp [DefaultValue.floats]))
    refine ⟨by simp [DefaultValue.json, hx.writable], ?_⟩
    simp [DefaultValue.json, fields, DefaultValue.decode, hx.decoded]
  | text s => exact ⟨by simp [DefaultValue.json], rfl⟩
  | expression sql => exact ⟨by simp [DefaultValue.json], rfl⟩

/-- A word inside a column is restored like any other. -/
theorem decodeHeldWord_text {α : Type} {words : List (String × α)} {word : String} {a : α}
    (h : words.lookup word = some a) : decodeHeldWord (ρ := ρ) words (.text word) = .ok a := by
  simp [text, decodeHeldWord, decodeWord, require, h]

/-- A reference as a record keeps it on a column. -/
def ColumnReference.json (r : ColumnReference) : Json :=
  .fields [("table", .text r.table), ("column", .text r.column),
    ("on_delete", .text r.onDelete.word), ("on_update", .text r.onUpdate.word)]

theorem restores_columnReference (r : ColumnReference) :
    Restores ColumnReference.json (ColumnReference.decode (ρ := ρ)) r where
  writable := by simp [ColumnReference.json]
  decoded := by
    refine bind_eq_ok.mpr ⟨_, recordFields_fields _ rfl (.refl _) (by decide), ?_⟩
    simp [Fields.required, Fields.optional, List.lookup, (restores_text _).decoded,
      (restores_keyAction _).decoded]

/-- A record with further fields. -/
def withFields (members : List (String × Json)) : Json → Json
  | .object ms => .object (ms ++ members.map fun m => (some m.1, m.2))
  | v => v

@[simp] theorem withFields_fields (ms members : List (String × Json)) :
    withFields members (.fields ms) = .fields (ms ++ members) := by
  simp [withFields, fields]

namespace KeyedColumn

/-- The keys that a record keeps on a column.  There are no fields for keys that it does not have. -/
def keyFields (c : KeyedColumn) : List (String × Json) :=
  (if c.inPrimaryKey then [("primary_key", .bool true)] else []) ++
    (match c.reference with
      | some r => [("foreign_key", r.json)]
      | none => [])

/-- A column with its keys. -/
def json (c : KeyedColumn) : Json := withFields c.keyFields c.column.json

/-- A column that brings no keys. -/
def unkeyed (c : Column) : KeyedColumn := ⟨c, false, none⟩

@[simp] theorem json_unkeyed (c : Column) : (unkeyed c).json = c.json := by
  simp [json, unkeyed, keyFields, Column.json]

end KeyedColumn

theorem restores_keyedColumn {c : KeyedColumn} (level : Nat)
    (hfinite : ∀ x ∈ c.column.default.floats, x.isFinite)
    (hreads : ∀ x ∈ c.column.default.floats, ReadsBack x) :
    Restores KeyedColumn.json (KeyedColumn.decode (ρ := ρ) level) c := by
  have hdefault : Restores _ _ c.column.default := restores_default (ρ := ρ) hfinite hreads
  obtain ⟨⟨name, accessor, type, nullable, default, unique, indexed, searchable, orderable⟩,
    inPrimaryKey, reference⟩ := c
  have htype := decodeHeldWord_text (ρ := ρ) (ColumnType.lookup_word type)
  have hreference : ∀ r : ColumnReference,
      decodeOption (ColumnReference.decode (ρ := ρ)) r.json = .ok (some r) := fun r =>
    (restores_columnReference r).decodeOption (by simp [ColumnReference.json, fields])
  have hwritable := fun r : ColumnReference => (restores_columnReference (ρ := ρ) r).writable
  -- An accessor and keys that are missing are not written.
  constructor
  · cases accessor <;> cases inPrimaryKey <;> cases reference <;>
      simp [KeyedColumn.json, KeyedColumn.keyFields, Column.json, hdefault.writable, hwritable]
  · rw [KeyedColumn.json, Column.json, withFields_fields]
    refine bind_eq_ok.mpr ⟨_, heldFields_fields _ rfl ?_ (by decide), ?_⟩
    · cases accessor <;> cases inPrimaryKey <;> cases reference <;>
        simp [KeyedColumn.keyFields, List.cons_sublist_cons]
    · cases accessor <;> cases inPrimaryKey <;> cases reference <;>
        simp [KeyedColumn.keyFields, Fields.required, Fields.optional, List.lookup,
          (restores_text _).decoded, (restores_bool _).decoded, htype, hdefault.decoded,
          decodeOption_text, hreference]

/-! ## 4. Tables -/

/-- A table as a record gives it, with the keys that its columns bring. -/
structure KeyedTable where
  name : String
  columns : List KeyedColumn
  primaryKey : List String
  foreignKeys : List ForeignKey
  indexes : List Index

namespace KeyedTable

/-- Reads what the record says, and moves nothing. -/
def decode (level : Nat) (v : Json) : Except (DocumentError ρ) KeyedTable := do
  let fs ← recordFields ["name", "columns", "primary_key", "foreign_keys", "indexes"] v
  let columns ← fs.required "columns" (decodeList (KeyedColumn.decode (level + 2)))
  return {
    name := ← fs.required "name" decodeText
    columns := columns
    primaryKey := ← fs.optional "primary_key" [] (decodeList decodeText)
    foreignKeys := ← fs.optional "foreign_keys" [] (decodeList ForeignKey.decode)
    indexes := ← fs.optional "indexes" [] (decodeList Index.decode) }

/-- The record, with the keys of columns on them. -/
def json (r : KeyedTable) : Json :=
  .fields [("name", .text r.name), ("columns", .array (r.columns.map KeyedColumn.json)),
    ("primary_key", .texts r.primaryKey),
    ("foreign_keys", .array (r.foreignKeys.map ForeignKey.json)),
    ("indexes", .array (r.indexes.map Index.json))]

/-- The floats of a record. -/
def floats (r : KeyedTable) : List Float := r.columns.flatMap (·.column.default.floats)

/-- The table with all keys in their place. -/
def table (r : KeyedTable) : Table :=
  Table.withColumnKeys ⟨r.name, [], r.primaryKey, r.foreignKeys, r.indexes⟩ r.columns

/-- The record of a table, which keeps no key on a column. -/
def ofTable (t : Table) : KeyedTable :=
  ⟨t.name, t.columns.map .unkeyed, t.primaryKey, t.foreignKeys, t.indexes⟩

theorem json_ofTable (t : Table) : (ofTable t).json = t.json := by
  simp [json, ofTable, Table.json, Function.comp_def]

theorem floats_ofTable (t : Table) : (ofTable t).floats = t.floats := by
  simp [floats, ofTable, Table.floats, List.flatMap_map, KeyedColumn.unkeyed]

end KeyedTable

/-- **A record is read as it is written**, with all keys where they are, if its floats are. -/
theorem restores_keyedTable {r : KeyedTable} (level : Nat) (hfinite : ∀ x ∈ r.floats, x.isFinite)
    (hreads : ∀ x ∈ r.floats, ReadsBack x) :
    Restores KeyedTable.json (KeyedTable.decode (ρ := ρ) level) r := by
  have hcolumns : Restores (fun cs : List KeyedColumn => .array (cs.map KeyedColumn.json))
      (decodeList (KeyedColumn.decode (ρ := ρ) (level + 2))) r.columns := by
    refine restores_list fun c hc => ?_
    have hfloats : ∀ x ∈ c.column.default.floats, x ∈ r.floats := fun x hx =>
      List.mem_flatMap.mpr ⟨c, hc, hx⟩
    exact restores_keyedColumn _ (fun x hx => hfinite x (hfloats x hx))
      fun x hx => hreads x (hfloats x hx)
  have hkeys := restores_list fun k (_ : k ∈ r.foreignKeys) => restores_foreignKey (ρ := ρ) k
  have hindexes := restores_list fun i (_ : i ∈ r.indexes) => restores_index (ρ := ρ) i
  constructor
  · simpa [KeyedTable.json, (restores_texts (ρ := ρ) _).writable] using
      ⟨by simpa using hcolumns.writable, by simpa using hkeys.writable,
        by simpa using hindexes.writable⟩
  · refine bind_eq_ok.mpr ⟨_, recordFields_fields _ rfl (.refl _) (by decide), ?_⟩
    simp [Fields.required, Fields.optional, List.lookup, (restores_text _).decoded,
      (restores_texts _).decoded, hcolumns.decoded, hkeys.decoded, hindexes.decoded]

/-- A table is read as its record is, and then its keys are put in their place. -/
theorem decode_eq_map_keyedTable (level : Nat) (v : Json) :
    Table.decode (ρ := ρ) level v = (KeyedTable.decode level v).map KeyedTable.table := by
  simp only [Table.decode, KeyedTable.decode, bind_map_eq]
  rfl

/-- Columns without keys of their own are only put to the others. -/
theorem withColumnKeys_unkeyed (t : Table) (cs : List Column) :
    t.withColumnKeys (cs.map .unkeyed) = { t with columns := t.columns ++ cs } := by
  induction cs generalizing t with
  | nil => simp [Table.withColumnKeys]
  | cons c cs ih =>
    have hc : (t.addKeyedColumn (.unkeyed c)) = { t with columns := t.columns ++ [c] } := by
      simp [Table.addKeyedColumn, KeyedColumn.unkeyed]
    have hcs := ih (t.addKeyedColumn (.unkeyed c))
    rw [Table.withColumnKeys] at hcs ⊢
    rw [List.map_cons, List.foldl_cons, hcs, hc]
    simp

/-- **A table is restored**, if its floats are. -/
theorem restores_table {t : Table} (level : Nat) (hfinite : ∀ x ∈ t.floats, x.isFinite)
    (hreads : ∀ x ∈ t.floats, ReadsBack x) :
    Restores Table.json (Table.decode (ρ := ρ) level) t := by
  rw [← KeyedTable.floats_ofTable] at hfinite hreads
  have hrecord := restores_keyedTable (ρ := ρ) level hfinite hreads
  have htable : (KeyedTable.ofTable t).table = t := withColumnKeys_unkeyed _ t.columns
  constructor
  · rw [← KeyedTable.json_ofTable]
    exact hrecord.writable
  · rw [← KeyedTable.json_ofTable, decode_eq_map_keyedTable, hrecord.decoded, map_ok, htable]

/-! ## 5. What records give -/

theorem ensures_float : Ensures (decodeFloat (ρ := ρ)) fun x => x.isFinite := by
  intro v x hv
  cases v with
  | number n => exact isFinite_of_toFloat? (require_eq_ok.mp hv)
  | _ => cases hv

theorem ensures_heldWord {α : Type} (words : List (String × α)) :
    Ensures (decodeHeldWord (ρ := ρ) words) fun a => ∃ word, words.lookup word = some a := by
  intro v a hv
  unfold decodeHeldWord at hv
  split at hv
  · exact ⟨_, require_eq_ok.mp hv⟩
  · exact ensures_word words _ a hv

/-- The floats of a default that was read are finite. -/
theorem ensures_default :
    Ensures (DefaultValue.decode (ρ := ρ)) fun d => ∀ x ∈ d.floats, x.isFinite := by
  intro v d hv
  unfold DefaultValue.decode at hv
  split at hv
  case h_3 =>
    obtain ⟨x, hx, rfl⟩ := map_eq_ok.mp hv
    simpa [DefaultValue.floats] using ensures_float _ x hx
  case h_6 =>
    obtain ⟨word, hword⟩ := ensures_heldWord _ _ d hv
    have hd : d.floats = [] := by
      have hmem := Dict.mem_of_lookup hword
      simp only [DefaultValue.words, List.mem_cons, Prod.mk.injEq, List.not_mem_nil,
        or_false] at hmem
      rcases hmem with ⟨-, rfl⟩ | ⟨-, rfl⟩ <;> rfl
    simp [hd]
  all_goals
    obtain ⟨_, -, rfl⟩ := map_eq_ok.mp hv
    simp [DefaultValue.floats]

theorem ensures_column (level : Nat) :
    Ensures (KeyedColumn.decode (ρ := ρ) level) fun c =>
      ∀ x ∈ c.column.default.floats, x.isFinite := by
  intro v c hv
  obtain ⟨fs, -, hv⟩ := bind_eq_ok.mp hv
  obtain ⟨name, -, hv⟩ := bind_eq_ok.mp hv
  obtain ⟨accessor, -, hv⟩ := bind_eq_ok.mp hv
  obtain ⟨type, -, hv⟩ := bind_eq_ok.mp hv
  obtain ⟨nullable, -, hv⟩ := bind_eq_ok.mp hv
  obtain ⟨default, hdefault, hv⟩ := bind_eq_ok.mp hv
  obtain ⟨unique, -, hv⟩ := bind_eq_ok.mp hv
  obtain ⟨indexed, -, hv⟩ := bind_eq_ok.mp hv
  obtain ⟨searchable, -, hv⟩ := bind_eq_ok.mp hv
  obtain ⟨orderable, -, hv⟩ := bind_eq_ok.mp hv
  obtain ⟨inPrimaryKey, -, hv⟩ := bind_eq_ok.mp hv
  obtain ⟨reference, -, hv⟩ := bind_eq_ok.mp hv
  cases hv
  exact ensures_default.optional (by simp [DefaultValue.floats]) hdefault

theorem columns_withColumnKeys (t : Table) (cs : List KeyedColumn) :
    (t.withColumnKeys cs).columns = t.columns ++ cs.map (·.column) := by
  unfold Table.withColumnKeys
  induction cs generalizing t with
  | nil => simp
  | cons c cs ih => simp [ih, Table.addKeyedColumn]

/-- **The floats of a table that was read are finite.** -/
theorem ensures_table (level : Nat) :
    Ensures (Table.decode (ρ := ρ) level) fun t => ∀ x ∈ t.floats, x.isFinite := by
  intro v t hv
  obtain ⟨fs, -, hv⟩ := bind_eq_ok.mp hv
  obtain ⟨columns, hcolumns, hv⟩ := bind_eq_ok.mp hv
  obtain ⟨name, -, hv⟩ := bind_eq_ok.mp hv
  obtain ⟨primaryKey, -, hv⟩ := bind_eq_ok.mp hv
  obtain ⟨foreignKeys, -, hv⟩ := bind_eq_ok.mp hv
  obtain ⟨indexes, -, hv⟩ := bind_eq_ok.mp hv
  cases hv
  have hfloats := (ensures_column (level + 2)).list.required hcolumns
  simpa [Table.floats, columns_withColumnKeys] using fun x c hc hx => hfloats c hc x hx

end Tabula.Schema
