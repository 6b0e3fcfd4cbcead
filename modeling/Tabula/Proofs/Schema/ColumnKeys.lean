/-
# Keys that columns bring

An older record keeps keys on columns; when it is read, they are put to those of the table.  No key
is lost and none is made up (`KeyedTable.KeepsKeys`): the keys that the table lists come first, as
they are, then those of the columns in the order of the columns, each once and only if it is not
there yet.  A table is read from a document exactly if that is the record of its keys
(`decode_eq_ok_iff_keepsKeys`), and the table is read again from its own record.
-/
import Tabula.Proofs.Schema.Records

namespace Tabula.Schema

open Tabula.Json

/-! ## 1. Adding what is new -/

section AddNew

variable {α : Type} [DecidableEq α]

/-- Elements that are added one by one, unless they are there, come after those that were there:
each of them once, in the order in which they came first. -/
theorem foldl_addNew (xs ys : List α) :
    ys.foldl addNew xs = xs ++ (ys.filter fun y => y ∉ xs).eraseDups := by
  induction ys generalizing xs with
  | nil => simp
  | cons y ys ih =>
    by_cases hy : y ∈ xs
    · rw [List.foldl_cons, addNew, if_pos hy, ih, List.filter_cons_of_neg (by simpa using hy)]
    · have hrest : (ys.filter fun z => z ∉ xs ++ [y]) =
          (ys.filter fun z => z ∉ xs).filter fun z => !z == y := by
        rw [List.filter_filter]
        refine List.filter_congr fun z _ => ?_
        by_cases hz : z = y <;> simp [hz]
      rw [List.foldl_cons, addNew, if_neg hy, ih, hrest, List.filter_cons_of_pos (by simpa using hy),
        List.eraseDups_cons, List.append_assoc, List.singleton_append]

theorem mem_append_new_iff {xs ys : List α} {z : α} :
    z ∈ xs ++ (ys.filter fun y => y ∉ xs).eraseDups ↔ z ∈ xs ∨ z ∈ ys := by
  simp only [List.mem_append, List.mem_eraseDups, List.mem_filter, decide_eq_true_eq]
  by_cases hz : z ∈ xs <;> simp [hz]

end AddNew

/-! ## 2. Keys of a record -/

namespace KeyedTable

/-- The columns that are marked as part of the primary key, by name and in order. -/
def markedNames (r : KeyedTable) : List String :=
  (r.columns.filter (·.inPrimaryKey)).map (·.column.name)

/-- The foreign keys of one column that the references of columns amount to, in order. -/
def referenceKeys (r : KeyedTable) : List ForeignKey :=
  r.columns.filterMap fun c => c.reference.map (·.foreignKey c.column.name)

/-- The table has every key of the record, in its place, and no other; all else is as the record
has it. -/
structure KeepsKeys (r : KeyedTable) (t : Table) : Prop where
  name : t.name = r.name
  columns : t.columns = r.columns.map (·.column)
  indexes : t.indexes = r.indexes
  primaryKey : t.primaryKey =
    r.primaryKey ++ (r.markedNames.filter fun c => c ∉ r.primaryKey).eraseDups
  foreignKeys : t.foreignKeys =
    r.foreignKeys ++ (r.referenceKeys.filter fun k => k ∉ r.foreignKeys).eraseDups
  inPrimaryKey : ∀ column, t.inPrimaryKey column = true ↔
    column ∈ r.primaryKey ∨ ∃ c ∈ r.columns, c.column.name = column ∧ c.inPrimaryKey = true
  inForeignKey : ∀ column, t.inForeignKey column = true ↔
    (∃ k ∈ r.foreignKeys, column ∈ k.columns) ∨
      ∃ c ∈ r.columns, c.column.name = column ∧ c.reference.isSome = true

end KeyedTable

/-! ## 3. Keeping keys -/

/-- Columns change nothing but the columns and the keys. -/
theorem rest_withColumnKeys (t : Table) (cs : List KeyedColumn) :
    (t.withColumnKeys cs).name = t.name ∧ (t.withColumnKeys cs).indexes = t.indexes := by
  unfold Table.withColumnKeys
  induction cs generalizing t with
  | nil => exact ⟨rfl, rfl⟩
  | cons c cs ih => exact ih (t.addKeyedColumn c)

theorem primaryKey_withColumnKeys (t : Table) (cs : List KeyedColumn) :
    (t.withColumnKeys cs).primaryKey =
      ((cs.filter (·.inPrimaryKey)).map (·.column.name)).foldl addNew t.primaryKey := by
  rw [List.foldl_map, List.foldl_filter]
  exact (List.foldl_hom Table.primaryKey fun _ _ => rfl).symm

theorem foreignKeys_withColumnKeys (t : Table) (cs : List KeyedColumn) :
    (t.withColumnKeys cs).foreignKeys =
      (cs.filterMap fun c => c.reference.map (·.foreignKey c.column.name)).foldl addNew
        t.foreignKeys := by
  rw [List.foldl_filterMap]
  refine (List.foldl_hom Table.foreignKeys fun t c => ?_).symm
  cases hc : c.reference <;> simp [Table.addKeyedColumn, hc]

namespace KeyedTable

theorem mem_markedNames {r : KeyedTable} {column : String} : column ∈ r.markedNames ↔
    ∃ c ∈ r.columns, c.column.name = column ∧ c.inPrimaryKey = true := by
  simp only [markedNames, List.mem_map, List.mem_filter]
  exact exists_congr fun c => by tauto

theorem mem_columns_referenceKeys {r : KeyedTable} {column : String} :
    (∃ k ∈ r.referenceKeys, column ∈ k.columns) ↔
      ∃ c ∈ r.columns, c.column.name = column ∧ c.reference.isSome = true := by
  simp only [referenceKeys, List.mem_filterMap, Option.map_eq_some_iff]
  constructor
  · rintro ⟨_, ⟨c, hc, reference, hreference, rfl⟩, hcolumn⟩
    exact ⟨c, hc, (List.mem_singleton.mp hcolumn).symm, Option.isSome_of_eq_some hreference⟩
  · rintro ⟨c, hc, rfl, hreference⟩
    obtain ⟨reference, hreference⟩ := Option.isSome_iff_exists.mp hreference
    exact ⟨_, ⟨c, hc, reference, hreference, rfl⟩, List.mem_singleton_self _⟩

/-- **Every key of a record is kept**, and none is made up. -/
theorem keepsKeys_table (r : KeyedTable) : r.KeepsKeys r.table := by
  have hprimary : r.table.primaryKey =
      r.primaryKey ++ (r.markedNames.filter fun c => c ∉ r.primaryKey).eraseDups := by
    rw [table, primaryKey_withColumnKeys, foldl_addNew]
    rfl
  have hforeign : r.table.foreignKeys =
      r.foreignKeys ++ (r.referenceKeys.filter fun k => k ∉ r.foreignKeys).eraseDups := by
    rw [table, foreignKeys_withColumnKeys, foldl_addNew]
    rfl
  constructor
  case name => exact (rest_withColumnKeys _ _).1
  case columns => exact columns_withColumnKeys _ _
  case indexes => exact (rest_withColumnKeys _ _).2
  case primaryKey => exact hprimary
  case foreignKeys => exact hforeign
  case inPrimaryKey =>
    intro column
    rw [Table.inPrimaryKey, List.contains_iff_mem, hprimary, mem_append_new_iff, mem_markedNames]
  case inForeignKey =>
    intro column
    simp only [Table.inForeignKey, List.any_eq_true, List.contains_iff_mem, hforeign,
      mem_append_new_iff, or_and_right, exists_or, mem_columns_referenceKeys]

/-- There is one way to keep the keys of a record. -/
theorem KeepsKeys.eq_table {r : KeyedTable} {t : Table} (h : r.KeepsKeys t) : t = r.table := by
  have hr := r.keepsKeys_table
  generalize r.table = t' at hr
  cases t
  cases t'
  rw [Table.mk.injEq]
  exact ⟨h.name.trans hr.name.symm, h.columns.trans hr.columns.symm,
    h.primaryKey.trans hr.primaryKey.symm, h.foreignKeys.trans hr.foreignKeys.symm,
    h.indexes.trans hr.indexes.symm⟩

end KeyedTable

/-! ## 4. Reading -/

variable {ρ : Type}

/-- **Records are read without loss of keys.**  A record with keys on the table, on columns or on
both is read as it is written; a table is read from a document exactly if the document is such a
record and the table has its keys; and a table that was read is read again from its own record. -/
theorem decode_eq_ok_iff_keepsKeys (level : Nat) :
    (∀ r : KeyedTable, (∀ x ∈ r.floats, x.isFinite) → (∀ x ∈ r.floats, ReadsBack x) →
      KeyedTable.decode (ρ := ρ) level r.json = .ok r) ∧
    ∀ v t, (Table.decode (ρ := ρ) level v = .ok t ↔
        ∃ r, KeyedTable.decode (ρ := ρ) level v = .ok r ∧ r.KeepsKeys t) ∧
      (Table.decode (ρ := ρ) level v = .ok t → (∀ x ∈ t.floats, ReadsBack x) → ∀ level',
        Table.decode (ρ := ρ) level' t.json = .ok t ∧
        decodeDocument (Table.decode (ρ := ρ) level') t.json.render = .ok t) := by
  refine ⟨fun r hfinite hreads => (restores_keyedTable level hfinite hreads).decoded, ?_⟩
  intro v t
  constructor
  · rw [decode_eq_map_keyedTable, map_eq_ok]
    refine exists_congr fun r => and_congr_right fun _ => ?_
    exact ⟨fun h => h ▸ r.keepsKeys_table, fun h => h.eq_table.symm⟩
  · intro h hreads level'
    have hrestores := restores_table (ρ := ρ) level' (ensures_table level v t h) hreads
    exact ⟨hrestores.decoded, hrestores.document⟩

/-- A record with keys on the table and on columns: two are in both places, and one column is there
twice. -/
def keyedPosts : KeyedTable :=
  { name := "posts"
    columns := [⟨.plain "id" .bigInt, true, none⟩,
      ⟨.plain "author" .bigInt, true, some ⟨"users", "id", .cascade, .noAction⟩⟩,
      ⟨.plain "editor" .bigInt, false, some ⟨"users", "id", .cascade, .noAction⟩⟩,
      .unkeyed { Column.plain "stars" .real with default := .float 2.5 },
      ⟨.plain "id" .text, true, none⟩]
    primaryKey := ["author"]
    foreignKeys := [⟨["author"], "users", ["id"], .cascade, .noAction⟩]
    indexes := [] }

/-- The table that it is read as. -/
def posts : Table :=
  { name := "posts"
    columns := [.plain "id" .bigInt, .plain "author" .bigInt, .plain "editor" .bigInt,
      { Column.plain "stars" .real with default := .float 2.5 }, .plain "id" .text]
    primaryKey := ["author", "id"]
    foreignKeys := [⟨["author"], "users", ["id"], .cascade, .noAction⟩,
      ⟨["editor"], "users", ["id"], .cascade, .noAction⟩]
    indexes := [] }

theorem keepsKeys_posts :
    (∀ x ∈ keyedPosts.floats, x.isFinite ∧ ReadsBack x) ∧
      KeyedTable.decode (ρ := Unit) 0 keyedPosts.json = .ok keyedPosts ∧
      Table.decode (ρ := Unit) 0 keyedPosts.json = .ok posts ∧ keyedPosts.KeepsKeys posts ∧
      decodeDocument (Table.decode (ρ := Unit) 0) posts.json.render = .ok posts := by
  have hfloats : keyedPosts.floats = [2.5] := by decide +kernel
  have hfinite : ∀ x ∈ keyedPosts.floats, x.isFinite := by
    rw [hfloats]
    decide +kernel
  have hreads : ∀ x ∈ keyedPosts.floats, ReadsBack x := by
    simpa [hfloats] using readsBack_two_and_a_half
  have htable : posts.floats = keyedPosts.floats := by decide +kernel
  obtain ⟨hrecord, hall⟩ := decode_eq_ok_iff_keepsKeys (ρ := Unit) 0
  obtain ⟨hkeeps, hagain⟩ := hall keyedPosts.json posts
  have hread : Table.decode (ρ := Unit) 0 keyedPosts.json = .ok posts := by decide +kernel
  obtain ⟨r, hr, hposts⟩ := hkeeps.mp hread
  obtain rfl := Except.ok.inj (hr.symm.trans (hrecord keyedPosts hfinite hreads))
  exact ⟨fun x hx => ⟨hfinite x hx, hreads x hx⟩, hr, hread, hposts,
    (hagain hread (htable ▸ hreads) 0).2⟩

end Tabula.Schema
