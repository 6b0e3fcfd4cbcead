/-
# Shapes that need nothing else

A table is created, or rebuilt, in a shape from which columns may be missing, since migrations that
are still to come will add them.  What is left must stand on its own: CREATE TABLE names no column
in a key that the shape does not have, and no index is put on one.

Only free columns are left out, those that are neither unique nor in a key, so that the keys find
all their columns.  A declared index goes with any of its columns.  Other indexes are made up for
columns that the shape has, and their names neither repeat nor meet a declared one, since the
columns have distinct names (`Table.allIndexes_eq`).

* `exists_shape_iff`: when there is a shape.
* `notMem_columns_iff_of_shape`: which columns it leaves out.
* `shape_isSelfContained`: what is left stands on its own.
-/
import Tabula.Proofs.Migration.Columns
import Tabula.Proofs.Migration.Effects

namespace Tabula

open Tabula.Schema

/-! ## 1. Indexes that columns ask for -/

namespace Schema.Table

variable {t : Table} {c : Column} {is js : List Index}

/-- Indexes of distinct names are added unless there is one of their name. -/
theorem foldl_addIndex_eq (h : (js.map (·.name)).Nodup) :
    js.foldl addIndex is = is ++ js.filter fun j => !is.any (·.name == j.name) := by
  induction js generalizing is with
  | nil => simp
  | cons j js ih =>
    obtain ⟨hj, hjs⟩ := List.nodup_cons.mp h
    rw [List.foldl_cons, ih hjs, addIndex]
    by_cases hany : is.any (·.name == j.name) = true
    · simp [hany]
    · -- No later index has the name of the one that is added.
      have hlater : (js.filter fun k => !(is ++ [j]).any (·.name == k.name)) =
          js.filter fun k => !is.any (·.name == k.name) := by
        refine List.filter_congr ?_
        intro k hk
        have hne : j.name ≠ k.name := fun heq => hj (List.mem_map.mpr ⟨k, hk, heq.symm⟩)
        simp [hne]
      rw [if_neg hany, hlater, List.filter_cons_of_pos (by simpa using hany)]
      simp

/-- The indexes that are made up for columns: those whose names are not declared. -/
def generatedIndexes (t : Table) : List Index :=
  ((t.columns.filter (·.indexed)).map fun c => t.columnIndex c.name).filter fun j =>
    !t.indexes.any (·.name == j.name)

theorem nodup_columnIndexNames (h : t.columnNames.Nodup) :
    (((t.columns.filter (·.indexed)).map fun c => t.columnIndex c.name).map (·.name)).Nodup := by
  have hnames : (t.columns.filter (·.indexed)).map (·.name) |>.Nodup :=
    h.sublist (List.filter_sublist.map _)
  have hindexes := hnames.map (columnIndexName_injective t.name)
  rwa [List.map_map] at hindexes ⊢

/-- **All indexes are the declared ones and those made up for columns.** -/
theorem allIndexes_eq (h : t.columnNames.Nodup) :
    t.allIndexes = t.indexes ++ t.generatedIndexes :=
  foldl_addIndex_eq (nodup_columnIndexNames h)

/-- **A name that is made up occurs once.** -/
theorem count_generatedIndexes (h : t.columnNames.Nodup) {i : Index}
    (hi : i ∈ t.generatedIndexes) : (t.allIndexes.map (·.name)).count i.name = 1 := by
  have hdeclared : i.name ∉ t.indexes.map (·.name) := by
    simpa [generatedIndexes] using (List.mem_filter.mp hi).2
  have hgenerated : (t.generatedIndexes.map (·.name)).Nodup :=
    (nodup_columnIndexNames h).sublist (List.filter_sublist.map _)
  rw [allIndexes_eq h, List.map_append, List.count_append, List.count_eq_zero.mpr hdeclared,
    List.count_eq_one_of_mem hgenerated (List.mem_map_of_mem hi)]

/-! ## 2. Free columns -/

/-- The column is neither unique nor part of a key. -/
structure IsFree (t : Table) (c : Column) : Prop where
  unique : c.unique = false
  primaryKey : c.name ∉ t.primaryKey
  foreignKeys : ∀ k ∈ t.foreignKeys, c.name ∉ k.columns

theorem isConstrained_eq_false_iff : t.isConstrained c = false ↔ t.IsFree c := by
  simp only [isConstrained, inPrimaryKey, inForeignKey, Bool.or_eq_false_iff,
    List.contains_eq_mem, decide_eq_false_iff_not, List.any_eq_false, decide_eq_true_eq]
  constructor
  · rintro ⟨⟨hunique, hprimary⟩, hforeign⟩
    exact ⟨hunique, hprimary, hforeign⟩
  · rintro ⟨hunique, hprimary, hforeign⟩
    exact ⟨⟨hunique, hprimary⟩, hforeign⟩

end Schema.Table

/-! ## 3. Shapes -/

namespace MigrationSet

variable {set : MigrationSet} {t : Table} {m : Migration} {pending : List Migration} {s : Shape}
  {c : Column}

/-- A migration that is still to come adds a column to the table. -/
def Awaits (set : MigrationSet) (t : Table) (pending : List Migration) (c : Column) : Prop :=
  ∃ m ∈ pending, m.kind.addsColumn = true ∧ set.concerns t m = true ∧ m.Names t c

/-- Every column that is to be added to the table is found.  Migrations that add columns to other
tables are looked at, too, but only for the table. -/
def FindsAdded (set : MigrationSet) (t : Table) (pending : List Migration) : Prop :=
  ∀ m ∈ pending, m.kind.addsColumn = true →
    (∃ u, set.table? m.table = some u) ∧ (set.concerns t m = true → ∃ c, m.Names t c)

theorem exists_addedColumns_iff :
    (∃ cs, set.addedColumns t pending = .ok cs) ↔ set.FindsAdded t pending := by
  induction pending with
  | nil => simp [addedColumns, FindsAdded]
  | cons m pending ih =>
    rw [FindsAdded, List.forall_mem_cons, ← FindsAdded, ← ih, addedColumns]
    by_cases hadds : m.kind.addsColumn = true
    · cases hu : set.table? m.table with
      | none => simp [hadds, MigrationSet.table, hu, bind, Except.bind]
      | some u =>
        rw [if_pos hadds, table_eq_ok.mpr hu, ok_bind]
        by_cases hname : u.name = t.name
        · have hconcerns := concerns_of_table? hu hname
          rw [if_pos hname, ← bind_assoc, exists_cons_eq_ok]
          simp only [bind_column_eq_ok, hadds, hconcerns, true_implies]
          simp
        · have hconcerns : set.concerns t m = false := by simp [concerns, hu, hname]
          simp [hname, hconcerns]
    · simp [hadds]

/-- **When there is a shape.** -/
theorem exists_shape_iff :
    (∃ s, set.shape t pending = .ok s) ↔ set.FindsAdded t pending := by
  rw [← exists_addedColumns_iff]
  constructor
  · rintro ⟨s, hs⟩
    obtain ⟨cs, hcs, -⟩ := bind_eq_ok.mp hs
    exact ⟨cs, hcs⟩
  · rintro ⟨cs, hcs⟩
    exact ⟨_, bind_eq_ok.mpr ⟨cs, hcs, rfl⟩⟩

/-- **A shape stands on its own.**  It is the table without the free columns that are still to be
added; its keys and indexes are over columns that it has, and what is left out is noted. -/
structure IsSelfContained (set : MigrationSet) (t : Table) (pending : List Migration) (s : Shape) :
    Prop where
  name : s.table.name = t.name
  columns : s.table.columns.Sublist t.columns
  leftOut : ∀ c ∈ t.columns, c ∉ s.table.columns ↔ t.IsFree c ∧ set.Awaits t pending c
  unique : ∀ c ∈ t.columns, c.unique = true → c ∈ s.table.columns
  primaryKey : s.table.primaryKey = t.primaryKey
  primaryKeyColumns : ∀ x ∈ t.primaryKey, x ∈ s.table.columnNames
  foreignKeys : s.table.foreignKeys = t.foreignKeys
  foreignKeyColumns : ∀ k ∈ t.foreignKeys, ∀ x ∈ k.columns, x ∈ s.table.columnNames
  indexes : ∀ i ∈ s.table.allIndexes, ∀ x ∈ i.columns, x.1 ∈ s.table.columnNames
  declared : s.table.allIndexes = s.table.indexes ++ s.table.generatedIndexes
  generated : ∀ i ∈ s.table.generatedIndexes, (s.table.allIndexes.map (·.name)).count i.name = 1
  deferred : ∀ (p : Progress) (x : String),
    (p.defer t.name s.deferred).isDeferred t.name x = true ↔
      x ∈ t.columnNames ∧ x ∉ s.table.columnNames

/-- Free columns that are still to be added are left out, and no others. -/
theorem notMem_columns_iff_of_shape (hn : t.columnNames.Nodup)
    (hs : set.shape t pending = .ok s) (hc : c ∈ t.columns) :
    c ∉ s.table.columns ↔ t.IsFree c ∧ set.Awaits t pending c := by
  have hdeferred : c ∉ s.table.columns ↔ c.name ∈ s.deferred := by
    rw [table_of_shape hs, Table.mem_columns_without]
    simp [hc]
  rw [hdeferred, mem_deferred_of_shape hs, Postpones, ← Table.isConstrained_eq_false_iff]
  constructor
  · rintro ⟨m, hm, d, hd, hfree, hname⟩
    obtain rfl : d = c := List.inj_on_of_nodup_map hn hd.2.2.mem hc hname
    exact ⟨hfree, m, hm, hd⟩
  · rintro ⟨hfree, m, hm, hadds⟩
    exact ⟨m, hm, c, hadds, hfree, rfl⟩

/-- What is left out of a shape is noted, whatever was noted before. -/
theorem isDeferred_iff_of_shape (hs : set.shape t pending = .ok s) (p : Progress) (x : String) :
    (p.defer t.name s.deferred).isDeferred t.name x = true ↔
      x ∈ t.columnNames ∧ x ∉ s.table.columnNames := by
  have hdeferred : x ∈ s.deferred → x ∈ t.columnNames := by
    rw [mem_deferred_of_shape hs]
    rintro ⟨m, -, c, ⟨-, -, hc⟩, -, rfl⟩
    exact Table.mem_columnNames_of_mem hc.mem
  rw [Progress.isDeferred_defer_self, List.contains_iff_mem, table_of_shape hs,
    Table.mem_columnNames_without]
  constructor
  · intro hx
    exact ⟨hdeferred hx, fun hkept => hkept.2 hx⟩
  · rintro ⟨hx, hgone⟩
    by_contra hkept
    exact hgone ⟨hx, hkept⟩

/-- **There is a shape if the columns to be added are found, and it stands on its own.** -/
theorem shape_isSelfContained (ht : t.IsSound) (pending : List Migration) :
    ((∃ s, set.shape t pending = .ok s) ↔ set.FindsAdded t pending) ∧
      ∀ s, set.shape t pending = .ok s → set.IsSelfContained t pending s := by
  refine ⟨exists_shape_iff, ?_⟩
  intro s hs
  have hn : t.columnNames.Nodup := ht.creatable.1
  have htable : s.table = t.without s.deferred := table_of_shape hs
  -- Keys and indexes find their columns in the shape, since they did so in the table.
  have hsound : s.table.IsSound := (shape_eq_ok hn hs).isSound ht
  have hprimary : s.table.primaryKey = t.primaryKey := by rw [htable, Table.primaryKey_without]
  have hforeign : s.table.foreignKeys = t.foreignKeys := by rw [htable, Table.foreignKeys_without]
  constructor
  case name => exact name_of_shape hs
  case columns =>
    rw [htable]
    exact List.filter_sublist
  case leftOut =>
    intro c hc
    exact notMem_columns_iff_of_shape hn hs hc
  case unique =>
    intro c hc hunique
    by_contra hmem
    have hfree := ((notMem_columns_iff_of_shape hn hs hc).mp hmem).1.unique
    rw [hunique] at hfree
    exact Bool.noConfusion hfree
  case primaryKey => exact hprimary
  case primaryKeyColumns => exact hprimary ▸ hsound.creatable.2.1
  case foreignKeys => exact hforeign
  case foreignKeyColumns => exact hforeign ▸ hsound.creatable.2.2
  case indexes =>
    intro i hi
    exact hsound.of_mem_allIndexes hi
  case declared => exact Table.allIndexes_eq hsound.creatable.1
  case generated =>
    intro i hi
    exact Table.count_generatedIndexes hsound.creatable.1 hi
  case deferred => exact isDeferred_iff_of_shape hs

end MigrationSet

/-- A table with a column of each kind: in a key, unique, and free, with an accessor and without. -/
def articles : Table :=
  { name := "articles"
    columns := [.plain "id" .integer, { Column.plain "author" .integer with indexed := true },
      { Column.plain "slug" .text with unique := true },
      { Column.plain "title" .text with accessor := some "heading", indexed := true },
      .plain "body" .text]
    primaryKey := ["id"]
    foreignKeys := [.single "author" "authors" "id"]
    indexes := [⟨"articles_by_title", false, [("title", .asc), ("body", .asc)]⟩] }

/-- What is still to come for the table: three columns, one of which is free. -/
def articleColumns : List Migration :=
  [.ofColumn .addColumn "articles" "heading", .ofColumn .addUniqueColumn "articles" "slug",
    .ofColumn .addColumn "articles" "author", .ofColumn .addIndex "articles" "body"]

/-- A set for the table. -/
def newArticles : MigrationSet := .ofMigrations articleColumns [articles] 1

theorem shape_isSelfContained_articles :
    articles.IsSound ∧ ∃ s, newArticles.shape articles articleColumns = .ok s ∧
      s.table.columnNames = ["id", "author", "slug", "body"] ∧
      s.table.allIndexes.map (·.name) = ["articles_author_idx"] ∧
      newArticles.IsSelfContained articles articleColumns s := by
  have hsound : articles.IsSound := ⟨by decide, by decide⟩
  have hshape : ∀ s, newArticles.shape articles articleColumns = .ok s →
      newArticles.IsSelfContained articles articleColumns s :=
    (MigrationSet.shape_isSelfContained hsound articleColumns).2
  exact ⟨hsound, _, rfl, rfl, rfl, hshape _ rfl⟩

end Tabula
