/-
# The shape in which a table is created

A table is created without the columns that later migrations add, unless such a column carries a
constraint.  `shape_eq_ok` says so of the shape that is computed, in terms of the names that the
pending migrations add (`MigrationSet.addedNames`), and the rest of the file says what remains of a
table without some columns: every column, key and index that does not need them, and no other.
-/
import Mathlib.Data.List.Nodup
import Tabula.Proofs.Migration.Moves

namespace Tabula

open Tabula.Schema

/-! ## 1. Progress -/

namespace Progress

variable {p : Progress} {table other column : String} {columns : List String}

@[simp] theorem created_defer : (p.defer table columns).created = p.created := rfl

@[simp] theorem mem_created_markCreated :
    other ∈ (p.markCreated table).created ↔ other = table ∨ other ∈ p.created := List.mem_cons

@[simp] theorem isDeferred_markCreated :
    (p.markCreated table).isDeferred other column = p.isDeferred other column := rfl

@[simp] theorem isDeferred_defer_self :
    (p.defer table columns).isDeferred table column = columns.contains column := by
  simp [isDeferred, defer]

theorem isDeferred_defer_of_ne (h : other ≠ table) :
    (p.defer table columns).isDeferred other column = p.isDeferred other column := by
  have hb : (other == table) = false := by simpa using h
  simp [isDeferred, defer, List.lookup_cons, hb]

/-- An index that counts as established is over columns that its table was made with. -/
theorem kept_of_established {t : Table} {i : Index} (h : p.established t i = true) :
    ∀ c ∈ i.columns, p.isDeferred t.name c.1 = false := by
  simp only [established, Bool.and_eq_true, Bool.not_eq_true', List.any_eq_false,
    Bool.not_eq_true] at h
  exact h.1

end Progress

/-! ## 2. The migrations of a table -/

theorem temporaryName_injective : Function.Injective temporaryName := by
  intro a b h
  have hlist := congrArg String.toList h
  simp only [temporaryName, String.toList_append, List.append_cancel_left_eq] at hlist
  exact String.toList_injective hlist

theorem temporaryName_ne (name : String) : temporaryName name ≠ name := by
  intro h
  have hlength := congrArg String.length h
  simp [temporaryName, String.length_append] at hlength

/-- The tables that a statement is about. -/
def Schema.Ddl.tables : Ddl → List String
  | createTable t => [t.name]
  | createTableAs name source _ => [name, source]
  | copyRows table source _ => [table, source]
  | dropTable name => [name]
  | renameTable old new => [old, new]
  | addColumn table _ => [table]
  | createIndex table _ => [table]

theorem tables_of_mem_createStatements {t : Table} {d : Ddl} (h : d ∈ createStatements t) :
    d.tables = [t.name] := by
  rcases List.mem_cons.mp h with rfl | h
  · rfl
  · obtain ⟨i, -, rfl⟩ := List.mem_map.mp h
    rfl

theorem tables_of_mem_addColumnStatements {t : Table} {c : Column} {unique : Bool} {d : Ddl}
    (h : d ∈ addColumnStatements t c unique) : d.tables = [t.name] := by
  simp only [addColumnStatements, List.mem_append, List.mem_singleton,
    List.mem_ite_nil_right] at h
  rcases h with (rfl | ⟨-, rfl⟩) | ⟨-, rfl⟩ <;> rfl

theorem tables_of_mem_rebuildStatements {t : Table} {copied : List String} {d : Ddl}
    (h : d ∈ rebuildStatements t copied) :
    ∀ x ∈ d.tables, x = t.name ∨ x = temporaryName t.name := by
  simp only [rebuildStatements, List.mem_append, List.mem_cons, List.not_mem_nil, or_false,
    List.mem_ite_nil_left, List.mem_map] at h
  rcases h with (((rfl | rfl) | ⟨-, rfl⟩) | rfl) | ⟨i, -, rfl⟩ <;> simp [Ddl.tables]

namespace MigrationSet

variable {set : MigrationSet} {t : Table} {m : Migration} {ms : List Migration}

/-- The migration is about a table of this name. -/
def concerns (set : MigrationSet) (t : Table) (m : Migration) : Bool :=
  (set.table? m.table).any fun u => u.name == t.name

theorem concerns_of_table? {u : Table} (h : set.table? m.table = some u) (hu : u.name = t.name) :
    set.concerns t m = true := by
  simp [concerns, h, hu]

/-- What a migration about a table looks up has the name of that table. -/
theorem name_of_concerns {u : Table} (hm : set.concerns t m = true)
    (h : set.table? m.table = some u) : u.name = t.name := by
  simpa [concerns, h] using hm

theorem ne_of_not_concerns {u : Table} (hm : set.concerns t m = false)
    (h : set.table? m.table = some u) : u.name ≠ t.name := by
  simpa [concerns, h] using hm

/-- With distinct table names, the table that a migration about `t` looks up is `t`. -/
theorem eq_of_concerns {u : Table} (hn : (set.target.values.map (·.name)).Nodup)
    (ht : t ∈ set.target.values) (hm : set.concerns t m = true)
    (hu : set.table? m.table = some u) : u = t :=
  List.inj_on_of_nodup_map hn (mem_of_table? hu) ht (name_of_concerns hm hu)

/-- The name of the column that a migration adds to a table, if it does. -/
def addedName? (set : MigrationSet) (t : Table) (m : Migration) : Option String :=
  if m.kind.addsColumn && set.concerns t m then (m.column.bind t.column?).map (·.name) else none

/-- The names of the columns that migrations add to a table, in their order. -/
def addedNames (set : MigrationSet) (t : Table) (ms : List Migration) : List String :=
  ms.filterMap (set.addedName? t)

/-- The migration creates a table. -/
def isCreation (set : MigrationSet) (t : Table) (m : Migration) : Bool :=
  decide (m.kind = .createTable) && set.concerns t m

/-- Whether migrations create a table. -/
def creates (set : MigrationSet) (t : Table) (ms : List Migration) : Bool :=
  ms.any (set.isCreation t)

theorem addedNames_cons_of_names {c : Column} (hk : m.kind.addsColumn = true)
    (ht : set.table? m.table = some t) (hc : m.Names t c) :
    set.addedNames t (m :: ms) = c.name :: set.addedNames t ms := by
  obtain ⟨key, hkey, hcol⟩ := hc
  have hname : set.addedName? t m = some c.name := by
    simp [addedName?, hk, concerns_of_table? ht rfl, hkey, hcol]
  simp [addedNames, hname]

theorem addedNames_cons_of_kind (hk : m.kind.addsColumn = false) :
    set.addedNames t (m :: ms) = set.addedNames t ms := by
  have hname : set.addedName? t m = none := by simp [addedName?, hk]
  simp [addedNames, hname]

theorem addedNames_cons_of_not_concerns (hm : set.concerns t m = false) :
    set.addedNames t (m :: ms) = set.addedNames t ms := by
  have hname : set.addedName? t m = none := by simp [addedName?, hm]
  simp [addedNames, hname]

theorem creates_cons_of_kind (hk : m.kind ≠ .createTable) :
    set.creates t (m :: ms) = set.creates t ms := by
  simp [creates, isCreation, hk]

theorem creates_cons_of_not_concerns (hm : set.concerns t m = false) :
    set.creates t (m :: ms) = set.creates t ms := by
  simp [creates, isCreation, hm]

theorem table_of_shape {s : Shape} (h : set.shape t ms = .ok s) :
    s.table = t.without s.deferred := by
  obtain ⟨cs, -, h⟩ := bind_eq_ok.mp h
  cases h
  rfl

theorem name_of_shape {s : Shape} (h : set.shape t ms = .ok s) : s.table.name = t.name := by
  rw [table_of_shape h]
  rfl

/-- **A deed is about one table**, the one that it looked up: its statements name that table and
its temporary name, and it makes progress on no other table. -/
theorem about_of_does {p p' : Progress} {ds : List Ddl} (h : m.Does set ms p ds p')
    (hk : m.kind ≠ .dropTable) :
    ∃ u, set.table? m.table = some u ∧
      (∀ d ∈ ds, ∀ x ∈ d.tables, x = u.name ∨ x = temporaryName u.name) ∧
      ∀ name, name ≠ u.name → (name ∈ p'.created ↔ name ∈ p.created) ∧
        ∀ column, p'.isDeferred name column = p.isDeferred name column := by
  cases h with
  | drop kind => exact absurd kind hk
  | @create u s _ table shape =>
    refine ⟨u, table, fun d hd => ?_, fun name hne => ?_⟩
    · rw [tables_of_mem_createStatements hd, name_of_shape shape]
      simp
    · simp [hne, Progress.isDeferred_defer_of_ne hne]
  | @addColumn u c _ table =>
    refine ⟨u, table, fun d hd => ?_, fun _ _ => ⟨Iff.rfl, fun _ => rfl⟩⟩
    rw [tables_of_mem_addColumnStatements hd]
    simp
  | @addIndex u i _ table =>
    exact ⟨u, table, by simp [Ddl.tables], fun _ _ => ⟨Iff.rfl, fun _ => rfl⟩⟩
  | @makeUnique u c _ table =>
    exact ⟨u, table, by simp [Ddl.tables], fun _ _ => ⟨Iff.rfl, fun _ => rfl⟩⟩
  | @copy u _ table =>
    refine ⟨u, table, ?_, fun _ _ => ⟨Iff.rfl, fun _ => rfl⟩⟩
    simp [Ddl.tables, or_comm]
  | @rebuild u s copied _ table shape =>
    refine ⟨u, table, fun d hd => ?_, fun name hne => ?_⟩
    · rw [← name_of_shape shape]
      exact tables_of_mem_rebuildStatements hd
    · simp [hne, Progress.isDeferred_defer_of_ne hne]

/-- Tables are created first. -/
theorem creates_eq_false (hs : Migration.Ascending (m :: ms)) (hm : 0 < m.kind.priority) :
    set.creates t (m :: ms) = false := by
  rw [creates, List.any_eq_false]
  intro m' hm' hc
  have hpos : 0 < m'.kind.priority := Nat.lt_of_lt_of_le hm (hs.le hm')
  simp only [isCreation, Bool.and_eq_true, decide_eq_true_eq] at hc
  exact Migration.Kind.priority_pos.mp hpos hc.1

/-- Columns are added before indexes. -/
theorem addedNames_eq_nil (hs : Migration.Ascending (m :: ms)) (hm : 10 < m.kind.priority) :
    set.addedNames t (m :: ms) = [] := by
  rw [addedNames, List.filterMap_eq_nil_iff]
  intro m' hm'
  have hlt : 10 < m'.kind.priority := Nat.lt_of_lt_of_le hm (hs.le hm')
  have hk : m'.kind.addsColumn = false :=
    Bool.eq_false_iff.mpr fun hadds =>
      Nat.ne_of_gt hlt (Migration.Kind.priority_of_addsColumn hadds)
  simp [addedName?, hk]

/-! ## 3. The shape -/

/-- The first migration adds a column to the table, or it has no part in what is found. -/
theorem addedColumns_cons_cases {cs : List Column} (h : set.addedColumns t (m :: ms) = .ok cs) :
    ((m.kind.addsColumn = false ∨ set.concerns t m = false) ∧ set.addedColumns t ms = .ok cs) ∨
      ∃ c cs', (m.kind.addsColumn = true ∧ set.concerns t m = true ∧ m.Names t c) ∧
        set.addedColumns t ms = .ok cs' ∧ cs = c :: cs' := by
  unfold addedColumns at h
  split at h
  case isFalse hk => exact .inl ⟨.inl (by simpa using hk), h⟩
  case isTrue hk =>
    obtain ⟨u, hu, h⟩ := bind_eq_ok.mp h
    rw [table_eq_ok] at hu
    split at h
    case isFalse hne => exact .inl ⟨.inr (by simp [concerns, hu, hne]), h⟩
    case isTrue heq =>
      rw [← bind_assoc] at h
      obtain ⟨c, hc, h⟩ := bind_eq_ok.mp h
      obtain ⟨cs', hcs', h⟩ := bind_eq_ok.mp h
      cases h
      exact .inr ⟨c, cs', ⟨hk, concerns_of_table? hu heq, bind_column_eq_ok.mp hc⟩, hcs', rfl⟩

/-- The columns that are found are those that a migration of the table names to add. -/
theorem mem_addedColumns_iff {cs : List Column} {c : Column}
    (h : set.addedColumns t ms = .ok cs) :
    c ∈ cs ↔ ∃ m ∈ ms, m.kind.addsColumn = true ∧ set.concerns t m = true ∧ m.Names t c := by
  induction ms generalizing cs with
  | nil =>
    cases h
    simp
  | cons m ms ih =>
    rw [List.exists_mem_cons_iff]
    rcases addedColumns_cons_cases h with ⟨hm, hms⟩ | ⟨d, cs', ⟨hk, hm, hd⟩, hms, rfl⟩
    · rw [ih hms, or_iff_right]
      rintro ⟨hk, hc, -⟩
      simp [hk, hc] at hm
    · rw [List.mem_cons, ih hms]
      refine or_congr_left ⟨?_, fun hc => hc.2.2.eq hd⟩
      rintro rfl
      exact ⟨hk, hm, hd⟩

/-- The columns that are found to be added are those with the added names. -/
theorem addedColumns_eq_ok {cs : List Column} (h : set.addedColumns t ms = .ok cs) :
    cs.map (·.name) = set.addedNames t ms ∧ ∀ c ∈ cs, c ∈ t.columns := by
  induction ms generalizing cs with
  | nil =>
    cases h
    exact ⟨rfl, by simp⟩
  | cons m ms ih =>
    rcases addedColumns_cons_cases h with ⟨hm, hms⟩ | ⟨c, cs', ⟨hk, hm, hc⟩, hms, rfl⟩
    · have hnames : set.addedNames t (m :: ms) = set.addedNames t ms :=
        hm.elim addedNames_cons_of_kind addedNames_cons_of_not_concerns
      rw [hnames]
      exact ih hms
    · obtain ⟨hnames, hmem⟩ := ih hms
      refine ⟨?_, List.forall_mem_cons.mpr ⟨hc.mem, hmem⟩⟩
      obtain ⟨key, hkey, hcol⟩ := hc
      have hname : set.addedName? t m = some c.name := by simp [addedName?, hk, hm, hkey, hcol]
      simp [addedNames, hname, hnames]

/-- What a shape is: the table without the deferred columns, which are those that are added and
carry no constraint. -/
structure IsShape (set : MigrationSet) (t : Table) (pending : List Migration) (s : Shape) :
    Prop where
  table : s.table = t.without s.deferred
  added : s.added = set.addedNames t pending
  deferred : ∀ x, x ∈ s.deferred ↔
    x ∈ s.added ∧ ∃ c ∈ t.columns, c.name = x ∧ t.isConstrained c = false

theorem shape_eq_ok {pending : List Migration} {s : Shape} (hn : t.columnNames.Nodup)
    (h : set.shape t pending = .ok s) : set.IsShape t pending s := by
  obtain ⟨cs, hcs, h⟩ := bind_eq_ok.mp h
  cases h
  obtain ⟨hnames, hmem⟩ := addedColumns_eq_ok hcs
  refine ⟨rfl, hnames, fun x => ?_⟩
  simp only [List.mem_map, List.mem_filter, Bool.not_eq_true']
  constructor
  · rintro ⟨c, ⟨hc, hcon⟩, rfl⟩
    exact ⟨⟨c, hc, rfl⟩, c, hmem c hc, rfl, hcon⟩
  · rintro ⟨⟨c', hc', rfl⟩, c, hc, heq, hcon⟩
    obtain rfl : c = c' := List.inj_on_of_nodup_map hn hc (hmem c' hc') heq
    exact ⟨c, ⟨hc', hcon⟩, rfl⟩

end MigrationSet

/-! ## 4. Tables without some columns -/

namespace Schema.Table

variable {t : Table} {names : List String} {x : String} {i : Index}

@[simp] theorem primaryKey_without : (t.without names).primaryKey = t.primaryKey := rfl

@[simp] theorem foreignKeys_without : (t.without names).foreignKeys = t.foreignKeys := rfl

theorem mem_columns_without {c : Column} :
    c ∈ (t.without names).columns ↔ c ∈ t.columns ∧ c.name ∉ names := by
  simp [without]

theorem columnNames_without :
    (t.without names).columnNames = t.columnNames.filter fun x => !names.contains x := by
  simp [columnNames, without, List.filter_map, Function.comp_def]

theorem mem_columnNames_without :
    x ∈ (t.without names).columnNames ↔ x ∈ t.columnNames ∧ x ∉ names := by
  simp [columnNames_without]

theorem mem_indexes_without :
    i ∈ (t.without names).indexes ↔ i ∈ t.indexes ∧ ∀ c ∈ i.columns, c.1 ∉ names := by
  simp [without, Index.touches]

theorem mem_columnNames_of_mem {c : Column} (h : c ∈ t.columns) : c.name ∈ t.columnNames :=
  List.mem_map_of_mem h

/-! ## 5. All indexes of a table -/

theorem mem_addIndex_of_mem {is : List Index} (j : Index) (h : i ∈ is) : i ∈ addIndex is j := by
  unfold addIndex
  split
  · exact h
  · exact List.mem_append_left _ h

theorem mem_foldl_addIndex_of_mem (js : List Index) {is : List Index} (h : i ∈ is) :
    i ∈ js.foldl addIndex is := by
  induction js generalizing is with
  | nil => exact h
  | cons j js ih => exact ih (mem_addIndex_of_mem j h)

theorem mem_of_mem_foldl_addIndex (js : List Index) {is : List Index}
    (h : i ∈ js.foldl addIndex is) : i ∈ is ∨ i ∈ js := by
  induction js generalizing is with
  | nil => exact .inl h
  | cons j js ih =>
    rcases ih h with hi | hi
    · unfold addIndex at hi
      split at hi
      · exact .inl hi
      · rcases List.mem_append.mp hi with hi | hi
        · exact .inl hi
        · exact .inr (List.mem_singleton.mp hi ▸ List.mem_cons_self)
    · exact .inr (List.mem_cons_of_mem _ hi)

/-- An index is there in the end, if all indexes of its name are the same. -/
theorem mem_foldl_addIndex (js : List Index) {is : List Index} (h : i ∈ js)
    (his : ∀ j ∈ is, j.name = i.name → j = i) (hjs : ∀ j ∈ js, j.name = i.name → j = i) :
    i ∈ js.foldl addIndex is := by
  induction js generalizing is with
  | nil => exact absurd h List.not_mem_nil
  | cons j js ih =>
    have hadd : ∀ k ∈ addIndex is j, k.name = i.name → k = i := by
      intro k hk
      rcases mem_of_mem_foldl_addIndex [j] hk with hk | hk
      · exact his k hk
      · exact hjs k (List.mem_singleton.mp hk ▸ List.mem_cons_self)
    rcases List.mem_cons.mp h with rfl | h
    · refine mem_foldl_addIndex_of_mem js ?_
      unfold addIndex
      split
      case isTrue hany =>
        obtain ⟨k, hk, hname⟩ := List.any_eq_true.mp hany
        exact his k hk (by simpa using hname) ▸ hk
      case isFalse => simp
    · exact ih h hadd fun k hk => hjs k (List.mem_cons_of_mem _ hk)

/-- A declared index is kept. -/
theorem mem_allIndexes_of_mem (h : i ∈ t.indexes) : i ∈ t.allIndexes :=
  mem_foldl_addIndex_of_mem _ h

/-- **Every index is declared, or a column asks for it.** -/
theorem mem_allIndexes_cases (h : i ∈ t.allIndexes) :
    i ∈ t.indexes ∨ ∃ c ∈ t.columns, c.indexed = true ∧ i = t.columnIndex c.name := by
  rcases mem_of_mem_foldl_addIndex _ h with h | h
  · exact .inl h
  · obtain ⟨c, hc, rfl⟩ := List.mem_map.mp h
    exact .inr ⟨c, (List.mem_filter.mp hc).1, (List.mem_filter.mp hc).2, rfl⟩

theorem columnIndexName_injective (table : String) :
    Function.Injective (columnIndexName table) := by
  intro a b h
  have hlist := congrArg String.toList h
  simpa [columnIndexName, String.toList_append, String.toList_inj] using hlist

/-- A column that asks for an index has one, unless another declared index has its name. -/
theorem columnIndex_mem_allIndexes {c : Column} (hc : c ∈ t.columns) (hi : c.indexed = true)
    (h : ∀ i ∈ t.indexes, i.name = columnIndexName t.name c.name → i = t.columnIndex c.name) :
    t.columnIndex c.name ∈ t.allIndexes := by
  refine mem_foldl_addIndex _ ?_ h fun j hj hname => ?_
  · exact List.mem_map.mpr ⟨c, List.mem_filter.mpr ⟨hc, hi⟩, rfl⟩
  · obtain ⟨d, -, rfl⟩ := List.mem_map.mp hj
    rw [columnIndexName_injective t.name hname]

end Schema.Table
end Tabula
