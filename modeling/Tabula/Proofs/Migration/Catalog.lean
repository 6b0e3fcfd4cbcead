/-
# What statements do to the columns of tables

A catalog says which tables there are and which columns they have.  `Ddl.run` is what one statement
makes of it, and it fails where the engine does: at a table or column that is not there, and at one
that is there already.  `Catalog.runAll` runs statements one after another, as far as they are about
tables that one watches.

The lemmas of the second part are about the lists of statements that migrations are made of.
-/
import Mathlib.Data.Finset.Basic
import Mathlib.Data.Finset.Dedup
import Tabula.Proofs.Migration.Shapes

namespace Tabula.Schema

/-! ## 1. Catalogs -/

/-- The columns of each table; `none` for a table that there is not. -/
abbrev Catalog := String → Option (Finset String)

/-- Columns have distinct names, and keys are over columns. -/
def Table.IsCreatable (t : Table) : Prop :=
  t.columnNames.Nodup ∧ (∀ x ∈ t.primaryKey, x ∈ t.columnNames) ∧
    ∀ k ∈ t.foreignKeys, ∀ x ∈ k.columns, x ∈ t.columnNames

instance (t : Table) : Decidable t.IsCreatable := inferInstanceAs (Decidable (_ ∧ _ ∧ _))

namespace Catalog

variable {cat : Catalog} {table other : String} {columns : Option (Finset String)}

/-- A table gets other columns, or goes. -/
def set (cat : Catalog) (table : String) (columns : Option (Finset String)) : Catalog :=
  Function.update cat table columns

@[simp] theorem set_self : cat.set table columns table = columns := Function.update_self ..

theorem set_of_ne (h : other ≠ table) : cat.set table columns other = cat other :=
  Function.update_of_ne h ..

/-- A table is there and has these columns. -/
def has (cat : Catalog) (table : String) (columns : List String) : Bool :=
  (cat table).any fun cs => columns.all fun x => decide (x ∈ cs)

theorem has_eq_true {names : List String} {cs : Finset String} (h : cat table = some cs)
    (hs : ∀ x ∈ names, x ∈ cs) : cat.has table names = true := by
  simpa [has, h] using hs

end Catalog

/-- What a statement makes of a catalog, if it does not fail. -/
def Ddl.run (cat : Catalog) : Ddl → Option Catalog
  | createTable t =>
    if cat t.name = none ∧ t.IsCreatable then some (cat.set t.name (some t.columnNames.toFinset))
    else none
  | createTableAs name source columns =>
    if cat name = none ∧ cat.has source columns then some (cat.set name (some columns.toFinset))
    else none
  | copyRows table source columns =>
    if cat.has table columns ∧ cat.has source columns then some cat else none
  | dropTable name => some (cat.set name none)
  | renameTable old new =>
    if cat.has old [] ∧ cat new = none then some ((cat.set new (cat old)).set old none) else none
  | addColumn table c =>
    match cat table with
    | some cs => if c.name ∈ cs then none else some (cat.set table (some (insert c.name cs)))
    | none => none
  | createIndex table i => if cat.has table (i.columns.map (·.1)) then some cat else none

namespace Catalog

/-- Runs the statements that are about watched tables, and passes over the others. -/
def runAll (watched : List String) : Catalog → List Ddl → Option Catalog
  | cat, [] => some cat
  | cat, d :: ds =>
    if d.tables.any watched.contains then
      match d.run cat with
      | some cat' => runAll watched cat' ds
      | none => none
    else runAll watched cat ds

/-! ## 2. Running lists of statements -/

variable {watched : List String} {cat cat' : Catalog} {d : Ddl} {ds es : List Ddl}

theorem runAll_cons_of_run (hw : ∃ x ∈ d.tables, x ∈ watched) (h : d.run cat = some cat') :
    cat.runAll watched (d :: ds) = cat'.runAll watched ds := by
  have ht : d.tables.any watched.contains = true := by simpa using hw
  rw [runAll, if_pos ht, h]

/-- A statement that leaves the catalog as it is need not be watched. -/
theorem runAll_cons_of_run_self (h : d.run cat = some cat) :
    cat.runAll watched (d :: ds) = cat.runAll watched ds := by
  rw [runAll, h, ite_self]

theorem runAll_append :
    cat.runAll watched (ds ++ es) =
      (cat.runAll watched ds).bind fun cat' => cat'.runAll watched es := by
  induction ds generalizing cat with
  | nil => rfl
  | cons d ds ih =>
    simp only [List.cons_append, runAll]
    split
    · cases d.run cat with
      | some cat' => exact ih
      | none => rfl
    · exact ih

/-- **Statements about other tables leave the watched ones alone.** -/
theorem runAll_of_untouched (h : ∀ d ∈ ds, ∀ x ∈ d.tables, x ∉ watched) :
    cat.runAll watched ds = some cat := by
  induction ds with
  | nil => rfl
  | cons d ds ih =>
    have ht : d.tables.any watched.contains = false := by
      simpa using h d List.mem_cons_self
    rw [runAll, ht]
    exact ih fun e he => h e (List.mem_cons_of_mem _ he)

/-- Indexes over columns of a table can be created. -/
theorem runAll_createIndexes {name : String} {cs : Finset String} (is : List Index)
    (h : cat name = some cs) (hs : ∀ i ∈ is, ∀ c ∈ i.columns, c.1 ∈ cs) :
    cat.runAll watched (is.map (Ddl.createIndex name)) = some cat := by
  induction is with
  | nil => rfl
  | cons i is ih =>
    have hi : cat.has name (i.columns.map (·.1)) = true :=
      has_eq_true h (by simpa using hs i List.mem_cons_self)
    rw [List.map_cons, runAll_cons_of_run_self (by simp [Ddl.run, hi])]
    exact ih fun j hj => hs j (List.mem_cons_of_mem _ hj)

variable {t : Table}

/-- **A table that is not there can be created.** -/
theorem runAll_createStatements (hw : t.name ∈ watched) (h : cat t.name = none)
    (ht : t.IsCreatable) (hs : ∀ i ∈ t.indexes, ∀ c ∈ i.columns, c.1 ∈ t.columnNames) :
    cat.runAll watched (createStatements t) =
      some (cat.set t.name (some t.columnNames.toFinset)) := by
  have hrun : (Ddl.createTable t).run cat =
      some (cat.set t.name (some t.columnNames.toFinset)) := by
    simp [Ddl.run, h, ht]
  rw [createStatements, runAll_cons_of_run ⟨_, List.mem_singleton_self _, hw⟩ hrun]
  refine runAll_createIndexes _ set_self fun i hi c hc => ?_
  exact List.mem_toFinset.mpr (hs i (List.mem_filter.mp hi).1 c hc)

/-- **A column that is not there can be added.** -/
theorem runAll_addColumnStatements {c : Column} {cs : Finset String} (unique : Bool)
    (hw : t.name ∈ watched) (h : cat t.name = some cs) (hc : c.name ∉ cs) :
    cat.runAll watched (addColumnStatements t c unique) =
      some (cat.set t.name (some (insert c.name cs))) := by
  have hrun : (Ddl.addColumn t.name c).run cat =
      some (cat.set t.name (some (insert c.name cs))) := by
    simp [Ddl.run, h, hc]
  generalize hcat₁ : cat.set t.name (some (insert c.name cs)) = cat₁ at hrun
  have htable₁ : cat₁ t.name = some (insert c.name cs) := by rw [← hcat₁, set_self]
  have hindex : ∀ (b : Bool) (i : Index), i.columns = [(c.name, .asc)] →
      cat₁.runAll watched (if b then [Ddl.createIndex t.name i] else []) = some cat₁ := by
    intro b i hi
    cases b with
    | false => rfl
    | true => exact runAll_createIndexes [i] htable₁ (by simp [hi])
  rw [addColumnStatements, List.append_assoc, List.singleton_append,
    runAll_cons_of_run ⟨_, List.mem_singleton_self _, hw⟩ hrun, runAll_append,
    hindex _ _ rfl, Option.bind_some, hindex _ _ rfl]

/-- **A table that is there can be rebuilt**, while no table has its temporary name.  Only columns
are copied that the table had and has. -/
theorem runAll_rebuildStatements {cs : Finset String} {copied : List String}
    (hw : t.name ∈ watched) (hw' : temporaryName t.name ∈ watched)
    (hne : t.name ≠ temporaryName t.name) (h : cat t.name = some cs)
    (h' : cat (temporaryName t.name) = none) (ht : t.IsCreatable)
    (hs : ∀ i ∈ t.allIndexes, ∀ c ∈ i.columns, c.1 ∈ t.columnNames)
    (hnew : ∀ x ∈ copied, x ∈ t.columnNames) (hold : ∀ x ∈ copied, x ∈ cs) :
    ∃ cat', cat.runAll watched (rebuildStatements t copied) = some cat' ∧
      cat' t.name = some t.columnNames.toFinset ∧ cat' (temporaryName t.name) = none := by
  have hrename : (Ddl.renameTable t.name (temporaryName t.name)).run cat =
      some ((cat.set (temporaryName t.name) (some cs)).set t.name none) := by
    simp [Ddl.run, h, h', has]
  generalize hcat₁ : (cat.set (temporaryName t.name) (some cs)).set t.name none = cat₁ at hrename
  have htable₁ : cat₁ t.name = none := by rw [← hcat₁, set_self]
  have htemp₁ : cat₁ (temporaryName t.name) = some cs := by
    rw [← hcat₁, set_of_ne hne.symm, set_self]
  have hcreate : (Ddl.createTable t).run cat₁ =
      some (cat₁.set t.name (some t.columnNames.toFinset)) := by
    simp [Ddl.run, htable₁, ht]
  generalize hcat₂ : cat₁.set t.name (some t.columnNames.toFinset) = cat₂ at hcreate
  have htable₂ : cat₂ t.name = some t.columnNames.toFinset := by rw [← hcat₂, set_self]
  have htemp₂ : cat₂ (temporaryName t.name) = some cs := by
    rw [← hcat₂, set_of_ne hne.symm, htemp₁]
  have hcopy : cat₂.runAll watched
      (if copied = [] then [] else [.copyRows t.name (temporaryName t.name) copied]) =
      some cat₂ := by
    split
    · rfl
    · have hcopies : cat₂.has t.name copied = true :=
        has_eq_true htable₂ fun x hx => List.mem_toFinset.mpr (hnew x hx)
      exact runAll_cons_of_run_self (by simp [Ddl.run, hcopies, has_eq_true htemp₂ hold])
  have hdrop : (Ddl.dropTable (temporaryName t.name)).run cat₂ =
      some (cat₂.set (temporaryName t.name) none) := rfl
  generalize hcat₃ : cat₂.set (temporaryName t.name) none = cat₃ at hdrop
  have htable₃ : cat₃ t.name = some t.columnNames.toFinset := by
    rw [← hcat₃, set_of_ne hne, htable₂]
  refine ⟨cat₃, ?_, htable₃, by rw [← hcat₃, set_self]⟩
  simp only [rebuildStatements, List.cons_append, List.nil_append, List.append_assoc]
  rw [runAll_cons_of_run ⟨t.name, by simp [Ddl.tables], hw⟩ hrename,
    runAll_cons_of_run ⟨t.name, by simp [Ddl.tables], hw⟩ hcreate, runAll_append, hcopy,
    Option.bind_some,
    runAll_cons_of_run ⟨temporaryName t.name, by simp [Ddl.tables], hw'⟩ hdrop]
  exact runAll_createIndexes _ htable₃ fun i hi c hc => List.mem_toFinset.mpr (hs i hi c hc)

end Catalog
end Tabula.Schema
