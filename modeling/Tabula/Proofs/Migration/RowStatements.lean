/-
# Rows that statements move

What an engine makes of the rows of a table when the table is renamed, created or dropped, and when
its rows are copied.  A statement that copies rows is taken as the engine reads it, from its text;
what the engine does with a row that is inserted is up to it (`RowEngine`).  It inserts the values
that are selected in the order in which the columns are listed, so that each column is copied to
itself if both lists are the same (`Tables.copy_eq`).
-/
import Mathlib.Data.List.Nodup
import Mathlib.Logic.Function.Basic
import Tabula.Migration.Plan
import Tabula.Proofs.Fallible
import Tabula.Proofs.Schema.CopyText

namespace Tabula

open Tabula.Schema Tabula.Text
open Tabula.Query (rowidColumn)

variable {ν : Type}

/-! ## 1. Engines -/

/-- A row of a table: its identifier, and its values by column. -/
structure StoredRow (ν : Type) where
  id : ν
  value : String → ν

/-- What is inserted for a row: values for some columns.  The others are left to their defaults. -/
abbrev NewRow (ν : Type) := String → Option ν

/-- An engine, as far as moving rows relies on it. -/
structure RowEngine (ν : Type) where
  /-- A name as it is compared with other ones; letters may lose their case. -/
  fold : String → String
  /-- The words that are no names unless they are quoted. -/
  reserved : String → Bool
  /-- Whether a value may come before another one. -/
  le : ν → ν → Prop
  /-- Rows in the ascending order of a value. -/
  arrange : (StoredRow ν → ν) → List (StoredRow ν) → List (StoredRow ν)
  /-- What a table keeps for a new row, beside the rows that it has, if all constraints are met. -/
  keep : Table → List (StoredRow ν) → NewRow ν → Option (StoredRow ν)
  length_fold : ∀ s, (fold s).length = s.length
  not_reserved_rowid : reserved rowidColumn = false
  not_reserved_temporary : ∀ s, reserved (temporaryName s) = false
  arrange_perm : ∀ key rows, (arrange key rows).Perm rows
  arrange_sorted : ∀ key rows, (arrange key rows).Pairwise fun a b => le (key a) (key b)

namespace RowEngine

variable (e : RowEngine ν)

/-- What a table keeps for new rows, one after another; nothing if one of them does not meet a
constraint. -/
def keepAll (t : Table) (rows : List (StoredRow ν)) : List (NewRow ν) → Option (List (StoredRow ν))
  | [] => some rows
  | new :: news => do
    let row ← e.keep t rows new
    keepAll t (rows ++ [row]) news

/-- One row is kept for each. -/
theorem length_keepAll {t : Table} {rows rows' : List (StoredRow ν)} {news : List (NewRow ν)}
    (h : e.keepAll t rows news = some rows') : rows'.length = rows.length + news.length := by
  induction news generalizing rows with
  | nil =>
    obtain rfl := Option.some.inj h
    rfl
  | cons new news ih =>
    obtain ⟨row, -, hrest⟩ := Option.bind_eq_some_iff.mp h
    rw [ih hrest, List.length_append, List.length_singleton, List.length_cons]
    omega

theorem fold_temporary_ne (name : String) : e.fold (temporaryName name) ≠ e.fold name := by
  intro h
  have hlength := congrArg String.length h
  rw [e.length_fold, e.length_fold, temporaryName, String.length_append] at hlength
  have hprefix : "temp_".length = 5 := by decide
  omega

theorem isBareName_rowid : IsBareName e.reserved rowidColumn where
  word := by decide
  bare := by
    rw [isBare, e.not_reserved_rowid]
    decide

theorem isBareName_temporary {name : String} (h : IsBareName e.reserved name) :
    IsBareName e.reserved (temporaryName name) where
  word := (by decide : IsWord isNameChar "temp_").append (.inr h.word)
  bare := by
    have hhead : (temporaryName name).toList.head? = some 't' := by
      simp [temporaryName]
    rw [isBare, e.not_reserved_temporary, hhead]
    decide

end RowEngine

/-! ## 2. Tables with rows -/

variable {e : RowEngine ν}

/-- A table with its rows.  No two columns have the same name. -/
structure StoredTable (e : RowEngine ν) where
  shape : Table
  rows : List (StoredRow ν)
  distinct : (shape.columnNames.map e.fold).Nodup

namespace StoredTable

variable (st : StoredTable e)

/-- The column of a name. -/
def column? (name : String) : Option String :=
  st.shape.columnNames.find? fun c => e.fold c == e.fold name

/-- The value that stands for the identifier of a row: that of a column with this name, if there is
one. -/
def rowid (r : StoredRow ν) : ν :=
  match st.column? rowidColumn with
  | some c => r.value c
  | none => r.id

/-- What a name stands for in a row. -/
def value? (name : String) : Option (StoredRow ν → ν) :=
  match st.column? name with
  | some c => some (·.value c)
  | none => if e.fold name = e.fold rowidColumn then some (·.id) else none

/-- The same for a name that is qualified by that of the table. -/
def selected? (source : String) (column : String × String) : Option (StoredRow ν → ν) :=
  if e.fold column.1 = e.fold source then st.value? column.2 else none

/-- The rows in the order of their identifiers. -/
def inOrder : List (StoredRow ν) := e.arrange st.rowid st.rows

theorem column?_of_mem {c : String} (h : c ∈ st.shape.columnNames) : st.column? c = some c := by
  cases hfind : st.column? c with
  | none =>
    have hnone := List.find?_eq_none.mp hfind c h
    simp at hnone
  | some d =>
    have hfold : e.fold d = e.fold c := by simpa using List.find?_some hfind
    rw [List.inj_on_of_nodup_map st.distinct (List.mem_of_find?_eq_some hfind) h hfold]

theorem value?_of_mem {c : String} (h : c ∈ st.shape.columnNames) :
    st.value? c = some (·.value c) := by
  rw [value?, st.column?_of_mem h]

theorem value?_rowid : st.value? rowidColumn = some st.rowid := by
  unfold value? rowid
  cases st.column? rowidColumn with
  | none => exact if_pos rfl
  | some c => rfl

end StoredTable

/-- The tables of a database, by their names as they are compared. -/
abbrev Tables (e : RowEngine ν) := String → Option (StoredTable e)

namespace Tables

variable (db : Tables e)

/-- The table of a name. -/
def get (name : String) : Option (StoredTable e) := db (e.fold name)

/-- A table gets a name, or none has it any more. -/
def set (name : String) (st : Option (StoredTable e)) : Tables e :=
  Function.update db (e.fold name) st

variable {db : Tables e} {name other : String} {st : Option (StoredTable e)}

@[simp] theorem get_set_self : (db.set name st).get name = st := Function.update_self ..

theorem get_set_of_ne (h : e.fold other ≠ e.fold name) :
    (db.set name st).get other = db.get other :=
  Function.update_of_ne h ..

end Tables

/-! ## 3. Statements -/

/-- The row that is inserted when values are given for a list of columns. -/
def newRow (columns : List String) (values : List ν) : NewRow ν := fun c =>
  (columns.zip values).lookup c

/-- What a statement does that copies rows, if both tables and all columns are there. -/
def Tables.copy (db : Tables e) (c : CopyStatement) : Option (Tables e) := do
  let target ← db.get c.target
  let source ← db.get c.source
  let columns ← c.columns.mapM target.column?
  let values ← c.selected.mapM (source.selected? c.source)
  let key ← source.selected? c.source c.order
  guard (columns.length = values.length)
  let news := (e.arrange key source.rows).map fun r => newRow columns (values.map (· r))
  let rows ← e.keepAll target.shape target.rows news
  return db.set c.target (some ⟨target.shape, rows, target.distinct⟩)

/-- What a statement makes of tables and their rows, if it does not fail.  The engine reads what is
to be copied from the text.  Statements of other kinds are not among those that move rows. -/
def Schema.Ddl.moveRows (db : Tables e) (d : Ddl) : Option (Tables e) :=
  match d with
  | .renameTable old new =>
    match db.get old, db.get new with
    | some st, none =>
      some ((db.set old none).set new (some ⟨{ st.shape with name := new }, st.rows, st.distinct⟩))
    | _, _ => none
  | .createTable t =>
    if h : db.get t.name = none ∧ (t.columnNames.map e.fold).Nodup then
      some (db.set t.name (some ⟨t, [], h.2⟩))
    else none
  | .copyRows .. => (CopyStatement.read? e.reserved d.text).bind db.copy
  | .dropTable name => some (db.set name none)
  | .createTableAs .. | .addColumn .. | .createIndex .. => none

/-- Runs statements one after another. -/
def Tables.run (db : Tables e) (ds : List Ddl) : Option (Tables e) := ds.foldlM Ddl.moveRows db

/-! ## 4. Copying columns -/

/-- The row that has the values of some columns of another row. -/
def StoredRow.moved (r : StoredRow ν) (columns : List String) : NewRow ν := fun c =>
  if c ∈ columns then some (r.value c) else none

theorem newRow_map (r : StoredRow ν) (columns : List String) :
    newRow columns (columns.map r.value) = r.moved columns := by
  funext c
  rw [newRow, StoredRow.moved]
  induction columns with
  | nil => rfl
  | cons d columns ih =>
    rw [List.map_cons, List.zip_cons_cons, List.lookup_cons, ih]
    by_cases h : c = d
    · simp [h]
    · have hne : (c == d) = false := by simpa using h
      simp [hne, h]

/-- **Columns are copied by their names**, if they are selected in the order in which they are
inserted. -/
theorem Tables.copy_eq {db : Tables e} {target source : String} {new old : StoredTable e}
    {columns : List String} (hnew : db.get target = some new) (hold : db.get source = some old)
    (hcolumns : ∀ c ∈ columns, c ∈ new.shape.columnNames ∧ c ∈ old.shape.columnNames) :
    db.copy ⟨target, columns, columns.map fun c => (source, c), source, (source, rowidColumn)⟩ =
      (e.keepAll new.shape new.rows (old.inOrder.map (·.moved columns))).map fun rows =>
        db.set target (some ⟨new.shape, rows, new.distinct⟩) := by
  have htargets : columns.mapM new.column? = some columns := by
    have hmap := mapM_eq_some_map (g := id) fun c hc => new.column?_of_mem (hcolumns c hc).1
    rwa [List.map_id] at hmap
  have hvalues : (columns.map fun c => (source, c)).mapM (old.selected? source) =
      some (columns.map fun c => (·.value c)) := by
    rw [List.mapM_map]
    refine mapM_eq_some_map ?_
    intro c hc
    exact (if_pos rfl).trans (old.value?_of_mem (hcolumns c hc).2)
  have hkey : old.selected? source (source, rowidColumn) = some old.rowid :=
    (if_pos rfl).trans old.value?_rowid
  have hlength : columns.length = (columns.map fun c (r : StoredRow ν) => r.value c).length :=
    (List.length_map ..).symm
  have hrow : ∀ r : StoredRow ν,
      newRow columns ((columns.map fun c (r : StoredRow ν) => r.value c).map (· r)) =
        r.moved columns := by
    intro r
    rw [← newRow_map, List.map_map]
    rfl
  simp only [copy, hnew, hold, Option.bind_eq_bind, Option.bind_some, htargets, hvalues, hkey,
    guard, if_pos hlength, hrow]
  rw [Option.map_eq_bind]
  rfl

end Tabula
