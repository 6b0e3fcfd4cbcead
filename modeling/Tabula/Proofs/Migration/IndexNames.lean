/-
# When two indexes get one name

The names of indexes are shared by all tables of a database, and an index whose name is taken is not
created.  Declared indexes come with their names.  The name of an index over a single column is made
of the name of the table and the name of the column, joined by an underscore, which may itself be
part of either: a column `member_code` of the table `team` and a column `code` of the table
`team_member` have the same joined name.

* `CollisionFree`: statements that create indexes of one name create the same index.
* `NamesApart.owns_cases`: what two indexes of one name can be.
* `collisionFree_iff_of_compile`: joined names are all that can go wrong.
* `not_clashes_of_separate`: they do not if no name of a table goes on where another one ends.
* `not_collisionFree_uniqueCodes`: of two columns that are to be unique only one becomes so.
-/
import Mathlib.Data.List.Pairwise
import Tabula.Proofs.Migration.Origins

namespace Tabula

open Tabula.Schema

/-! ## 1. Names -/

/-- The name of a table and the name of one of its columns, joined. -/
def joinedName (table column : String) : String := table ++ "_" ++ column

theorem columnIndexName_eq (table column : String) :
    columnIndexName table column = joinedName table column ++ "_idx" := rfl

theorem uniqueIndexName_eq (table column : String) :
    uniqueIndexName table column = joinedName table column ++ "_unique" := rfl

variable {set : MigrationSet} {t u : Table} {i j : Index} {c d : Column} {ds : List Ddl}
  {table other column column' : String}

theorem joinedName_injective (h : joinedName table column = joinedName table column') :
    column = column' := by
  have hlist := congrArg String.toList h
  simpa [joinedName, String.toList_append, String.toList_inj] using hlist

/-- The two kinds of generated names differ in their ends. -/
theorem columnIndexName_ne_uniqueIndexName :
    columnIndexName table column ≠ uniqueIndexName other column' := by
  intro h
  rw [columnIndexName_eq, uniqueIndexName_eq] at h
  have hlast := congrArg (fun s : String => s.toList.getLast?) h
  simp [String.toList_append] at hlast

/-- **Two tables have a joined name in common only if the name of one of them begins with that of the
other and an underscore.** -/
theorem isPrefix_of_joinedName_eq (h : joinedName table column = joinedName other column')
    (hne : table ≠ other) :
    (table ++ "_").toList <+: other.toList ∨ (other ++ "_").toList <+: table.toList := by
  have hlist : table.toList ++ '_' :: column.toList = other.toList ++ '_' :: column'.toList := by
    simpa [joinedName] using congrArg String.toList h
  have hrest : ∀ {a b : String} {x cs ds : List Char}, a ≠ b → b.toList = a.toList ++ x →
      '_' :: cs = x ++ '_' :: ds → (a ++ "_").toList <+: b.toList := by
    intro a b x cs ds hab hb hx
    cases x with
    | nil => exact absurd (String.toList_inj.mp (by simpa using hb)).symm hab
    | cons c x =>
      obtain ⟨rfl, -⟩ := List.cons.inj hx
      exact ⟨x, by simp [hb]⟩
  rcases List.append_eq_append_iff.mp hlist with ⟨x, hother, hx⟩ | ⟨x, htable, hx⟩
  · exact .inl (hrest hne hother hx)
  · exact .inr (hrest hne.symm htable hx)

/-! ## 2. Collisions -/

/-- **Statements that create indexes of one name create the same index.** -/
def CollisionFree (ds : List Ddl) : Prop :=
  ∀ table i other j, Ddl.createIndex table i ∈ ds → Ddl.createIndex other j ∈ ds →
    i.name = j.name → table = other ∧ i.columns = j.columns ∧ i.unique = j.unique

namespace MigrationSet

/-- Names that are given are distinct: those of tables, those of the columns of one table, and those
of declared indexes, from each other and from all that may be generated. -/
structure NamesApart (set : MigrationSet) : Prop where
  tables : (set.target.values.map (·.name)).Nodup
  columns : ∀ t ∈ set.target.values, t.columnNames.Nodup
  indexes : ((set.target.values.flatMap (·.indexes)).map (·.name)).Nodup
  generated : ∀ t ∈ set.target.values, ∀ i ∈ t.indexes, ∀ u ∈ set.target.values, ∀ c ∈ u.columns,
    i.name ≠ columnIndexName u.name c.name ∧ i.name ≠ uniqueIndexName u.name c.name

/-- Two columns of different tables have a joined name in common, and both get an index of the same
kind. -/
def Clashes (set : MigrationSet) (ds : List Ddl) : Prop :=
  ∃ t ∈ set.target.values, ∃ c ∈ t.columns, ∃ u ∈ set.target.values, ∃ d ∈ u.columns,
    t.name ≠ u.name ∧ joinedName t.name c.name = joinedName u.name d.name ∧
      (Ddl.createIndex t.name (t.columnIndex c.name) ∈ ds ∧
          Ddl.createIndex u.name (u.columnIndex d.name) ∈ ds ∨
        Ddl.createIndex t.name (t.uniqueIndex c.name) ∈ ds ∧
          Ddl.createIndex u.name (u.uniqueIndex d.name) ∈ ds)

/-- Declared indexes of one name are the same, and so are their tables. -/
theorem NamesApart.eq_of_declared (hn : set.NamesApart) (ht : t ∈ set.target.values)
    (hu : u ∈ set.target.values) (hi : i ∈ t.indexes) (hj : j ∈ u.indexes)
    (h : i.name = j.name) : t = u ∧ i = j := by
  have hmem : ∀ {v k}, v ∈ set.target.values → k ∈ v.indexes →
      k ∈ set.target.values.flatMap (·.indexes) := fun hv hk => List.mem_flatMap.mpr ⟨_, hv, hk⟩
  obtain rfl := List.inj_on_of_nodup_map hn.indexes (hmem ht hi) (hmem hu hj) h
  obtain ⟨-, hdisjoint⟩ := List.nodup_flatMap.mp hn.indexes.of_map
  have : Std.Symm (Function.onFun List.Disjoint fun v : Table => v.indexes) :=
    ⟨fun _ _ h _ hx hy => h hy hx⟩
  refine ⟨?_, rfl⟩
  by_contra hne
  exact hdisjoint.forall ht hu hne hi hj

/-- What two indexes of one name are: the same index of the same table, or indexes of one kind over
columns of two tables whose joined names are the same. -/
theorem NamesApart.owns_cases (hn : set.NamesApart) (ht : t ∈ set.target.values)
    (hu : u ∈ set.target.values) (hi : t.Owns i) (hj : u.Owns j) (h : i.name = j.name) :
    t.name = u.name ∧ i = j ∨ t.name ≠ u.name ∧ ∃ c ∈ t.columns, ∃ d ∈ u.columns,
      joinedName t.name c.name = joinedName u.name d.name ∧
        (i = t.columnIndex c.name ∧ j = u.columnIndex d.name ∨
          i = t.uniqueIndex c.name ∧ j = u.uniqueIndex d.name) := by
  -- In one table a joined name belongs to one column.
  have hcolumn : ∀ {c d : Column}, joinedName t.name c.name = joinedName u.name d.name →
      t.name = u.name → c.name = d.name := fun hjoined hname =>
    joinedName_injective (hname ▸ hjoined)
  cases hi with
  | declared hi =>
    cases hj with
    | declared hj =>
      obtain ⟨rfl, rfl⟩ := hn.eq_of_declared ht hu hi hj h
      exact .inl ⟨rfl, rfl⟩
    | column hd => exact absurd h (hn.generated t ht i hi u hu _ hd).1
    | unique hd => exact absurd h (hn.generated t ht i hi u hu _ hd).2
  | @column c hc =>
    cases hj with
    | declared hj => exact absurd h.symm (hn.generated u hu j hj t ht _ hc).1
    | @column d hd =>
      have hjoined : joinedName t.name c.name = joinedName u.name d.name :=
        (String.append_left_inj _).mp h
      by_cases hname : t.name = u.name
      · exact .inl ⟨hname, by simp [Table.columnIndex, hname, hcolumn hjoined hname]⟩
      · exact .inr ⟨hname, c, hc, d, hd, hjoined, .inl ⟨rfl, rfl⟩⟩
    | unique => exact absurd h columnIndexName_ne_uniqueIndexName
  | @unique c hc =>
    cases hj with
    | declared hj => exact absurd h.symm (hn.generated u hu j hj t ht _ hc).2
    | column => exact absurd h.symm columnIndexName_ne_uniqueIndexName
    | @unique d hd =>
      have hjoined : joinedName t.name c.name = joinedName u.name d.name :=
        (String.append_left_inj _).mp h
      by_cases hname : t.name = u.name
      · exact .inl ⟨hname, by simp [Table.uniqueIndex, hname, hcolumn hjoined hname]⟩
      · exact .inr ⟨hname, c, hc, d, hd, hjoined, .inr ⟨rfl, rfl⟩⟩

/-- The statements collide only if there is a clash. -/
theorem NamesApart.clashes_of_name_eq (hn : set.NamesApart) (h : set.compile = .ok ds)
    (hi : Ddl.createIndex table i ∈ ds) (hj : Ddl.createIndex other j ∈ ds)
    (hname : i.name = j.name) : table = other ∧ i = j ∨ set.Clashes ds := by
  obtain ⟨t, ht, rfl, hti⟩ := supplies_of_compile h hi
  obtain ⟨u, hu, rfl, huj⟩ := supplies_of_compile h hj
  rcases hn.owns_cases ht hu hti huj hname with
    hsame | ⟨hne, c, hc, d, hd, hjoined, ⟨rfl, rfl⟩ | ⟨rfl, rfl⟩⟩
  · exact .inl hsame
  · exact .inr ⟨t, ht, c, hc, u, hu, d, hd, hne, hjoined, .inl ⟨hi, hj⟩⟩
  · exact .inr ⟨t, ht, c, hc, u, hu, d, hd, hne, hjoined, .inr ⟨hi, hj⟩⟩

/-- And whenever there is one. -/
theorem Clashes.not_collisionFree (h : set.Clashes ds) : ¬CollisionFree ds := by
  intro hfree
  obtain ⟨t, -, c, -, u, -, d, -, hne, hjoined, ⟨hi, hj⟩ | ⟨hi, hj⟩⟩ := h
  · have hname : (t.columnIndex c.name).name = (u.columnIndex d.name).name :=
      congrArg (· ++ "_idx") hjoined
    exact hne (hfree _ _ _ _ hi hj hname).1
  · have hname : (t.uniqueIndex c.name).name = (u.uniqueIndex d.name).name :=
      congrArg (· ++ "_unique") hjoined
    exact hne (hfree _ _ _ _ hi hj hname).1

/-- **There is no clash if no name of a table begins with that of another one and an underscore.** -/
theorem not_clashes_of_separate (hsep : ∀ t ∈ set.target.values, ∀ u ∈ set.target.values,
    t.name ≠ u.name → ¬(t.name ++ "_").toList <+: u.name.toList) : ¬set.Clashes ds := by
  rintro ⟨t, ht, c, -, u, hu, d, -, hne, hjoined, -⟩
  rcases isPrefix_of_joinedName_eq hjoined hne with hbegins | hbegins
  · exact hsep t ht u hu hne hbegins
  · exact hsep u hu t ht hne.symm hbegins

/-! ## 3. The statements of a plan -/

/-- **Two different indexes of one name are created exactly if columns of two tables have a joined name
in common and both get an index of the same kind.** -/
theorem collisionFree_iff_of_compile (hn : set.NamesApart) (h : set.compile = .ok ds) :
    CollisionFree ds ↔ ¬set.Clashes ds := by
  constructor
  · exact fun hfree hclash => hclash.not_collisionFree hfree
  · intro hclash table i other j hi hj hname
    rcases hn.clashes_of_name_eq h hi hj hname with ⟨rfl, rfl⟩ | hc
    · exact ⟨rfl, rfl, rfl⟩
    · exact absurd hc hclash

end MigrationSet

/-! ## 4. A set without a clash and one with a clash -/

/-- A table of one column beside the number of the row. -/
def listOf (table column : String) : Table :=
  { Table.empty table with columns := [.plain "id" .integer, .plain column .text] }

/-- The codes of members are to be unique, and so is a column of their teams. -/
def uniqueCodes (column : String) : MigrationSet :=
  .ofMigrations [.ofColumn .makeColumnUnique "team_member" "code",
    .ofColumn .makeColumnUnique "team" column] [listOf "team" column, listOf "team_member" "code"] 1

/-- The statements for them. -/
def uniqueCodesPlan (column : String) : List Ddl :=
  [.createIndex "team_member" ((listOf "team_member" "code").uniqueIndex "code"),
    .createIndex "team" ((listOf "team" column).uniqueIndex column)]

theorem values_uniqueCodes (column : String) :
    (uniqueCodes column).target.values = [listOf "team" column, listOf "team_member" "code"] := by
  have hlt : ¬"team_member" < "team" := by decide
  have hne : "team_member" ≠ "team" := by decide
  have hentries : (uniqueCodes column).target.entries = Dict.insertEntry "team_member"
      (listOf "team_member" "code") [("team", listOf "team" column)] := rfl
  rw [Dict.values, hentries, Dict.insertEntry, if_neg hlt, if_neg hne]
  rfl

theorem namesApart_uniqueCodes {column : String} (h : column ≠ "id") :
    (uniqueCodes column).NamesApart := by
  constructor <;>
    simp [values_uniqueCodes, listOf, Table.empty, Table.columnNames, Column.plain, h.symm]

theorem compile_uniqueCodes_title :
    (uniqueCodes "title").compile = .ok (uniqueCodesPlan "title") := by
  rw [MigrationSet.compile, plan_eq_planSteps rfl, Migration.sort_eq_self (by decide)]
  rfl

/-- The titles of teams have an index of their own, though the one name begins with the other. -/
theorem collisionFree_uniqueCodes_title : CollisionFree (uniqueCodesPlan "title") := by
  refine (MigrationSet.collisionFree_iff_of_compile (namesApart_uniqueCodes (by decide))
    compile_uniqueCodes_title).mpr ?_
  rintro ⟨t, -, c, -, u, -, d, -, hne, hjoined, ⟨hi, -⟩ | ⟨hi, hj⟩⟩
  · simp [uniqueCodesPlan, Table.columnIndex, Table.uniqueIndex, Index.single] at hi
  · simp only [uniqueCodesPlan, Table.uniqueIndex, Index.single, List.mem_cons, List.not_mem_nil,
      Ddl.createIndex.injEq, Index.mk.injEq, List.cons.injEq, Prod.mk.injEq, and_true, or_false,
      true_and] at hi hj
    rcases hi with ⟨ht, -, hc⟩ | ⟨ht, -, hc⟩ <;> rcases hj with ⟨hu, -, hd⟩ | ⟨hu, -, hd⟩
    · exact hne (ht.trans hu.symm)
    · exact absurd (ht ▸ hc ▸ hu ▸ hd ▸ hjoined) (by decide)
    · exact absurd (ht ▸ hc ▸ hu ▸ hd ▸ hjoined) (by decide)
    · exact hne (ht.trans hu.symm)

/-- **Two columns of which only one becomes unique**: the index over the member codes of teams and
the one over the codes of team members have the same name. -/
theorem not_collisionFree_uniqueCodes :
    (uniqueCodes "member_code").NamesApart ∧
      (uniqueCodes "member_code").compile = .ok (uniqueCodesPlan "member_code") ∧
      ¬CollisionFree (uniqueCodesPlan "member_code") := by
  refine ⟨namesApart_uniqueCodes (by decide), ?_, fun hfree => ?_⟩
  · rw [MigrationSet.compile, plan_eq_planSteps rfl, Migration.sort_eq_self (by decide)]
    rfl
  · have hsame : "team_member" = "team" := (hfree _ _ _ _ List.mem_cons_self
      (List.mem_cons_of_mem _ List.mem_cons_self) (by decide)).1
    exact absurd hsame (by decide)

end Tabula
