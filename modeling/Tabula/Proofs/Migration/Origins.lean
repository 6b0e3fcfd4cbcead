/-
# Where the parts of statements come from

Every statement of a plan carries out a migration (`exists_does_of_compile`), and what it says of
columns and indexes it takes from a table of the target: the columns that it defines are columns of
that table, and the index that it creates is declared there or is over a single column of it
(`MigrationSet.Supplies`).  So what is known of all tables of a target is known of the statements.
-/
import Tabula.Proofs.Migration.Shapes

namespace Tabula

open Tabula.Schema

/-- An index that a table may get: a declared one, or one of the two over a single column. -/
inductive Schema.Table.Owns (t : Table) : Index → Prop
  | declared {i : Index} (mem : i ∈ t.indexes) : Owns t i
  | column {c : Column} (mem : c ∈ t.columns) : Owns t (t.columnIndex c.name)
  | unique {c : Column} (mem : c ∈ t.columns) : Owns t (t.uniqueIndex c.name)

namespace MigrationSet

/-- The columns that a statement defines, or the index that it creates, are taken from a table of the
target. -/
def Supplies (set : MigrationSet) : Ddl → Prop
  | .createTable u => ∃ t ∈ set.target.values, ∀ c ∈ u.columns, c ∈ t.columns
  | .addColumn _ c => ∃ t ∈ set.target.values, c ∈ t.columns
  | .createIndex table i => ∃ t ∈ set.target.values, table = t.name ∧ t.Owns i
  | .createTableAs _ _ _ | .copyRows _ _ _ | .dropTable _ | .renameTable _ _ => True

variable {set : MigrationSet} {m : Migration} {ms pending : List Migration} {t : Table}
  {i : Index} {p p' : Progress} {s : Shape} {d : Ddl} {ds : List Ddl} {steps : List PlanStep}

/-! ## 1. The statements of one migration -/

/-- A table in its shape has no index that it could not get. -/
theorem owns_of_mem_allIndexes (hs : set.shape t pending = .ok s) (hi : i ∈ s.table.allIndexes) :
    t.Owns i := by
  rw [table_of_shape hs] at hi
  rcases Table.mem_allIndexes_cases hi with hi | ⟨c, hc, -, rfl⟩
  · exact .declared (Table.mem_indexes_without.mp hi).1
  · exact .column (Table.mem_columns_without.mp hc).1

/-- So with the index that a migration asks for. -/
theorem owns_of_index (hi : m.index t = .ok i) : t.Owns i := by
  rcases index_eq_ok hi with hi | ⟨c, hc, rfl⟩
  · exact .declared hi
  · split
    · exact .unique hc
    · exact .column hc

/-- A table in its shape has no column that it has not. -/
theorem mem_columns_of_mem_shape {c : Column} (hs : set.shape t pending = .ok s)
    (hc : c ∈ s.table.columns) : c ∈ t.columns := by
  rw [table_of_shape hs] at hc
  exact (Table.mem_columns_without.mp hc).1

/-- **The statements of a migration take their parts from the table that it looked up.** -/
theorem supplies_of_does (h : m.Does set pending p ds p') (hd : d ∈ ds) : set.Supplies d := by
  cases h with
  | drop =>
    obtain rfl := List.mem_singleton.mp hd
    trivial
  | @create t s _ table shape =>
    have ht : t ∈ set.target.values := mem_of_table? table
    rcases List.mem_cons.mp hd with rfl | hd
    · exact ⟨t, ht, fun c hc => mem_columns_of_mem_shape shape hc⟩
    · obtain ⟨i, hi, rfl⟩ := List.mem_map.mp hd
      have hmem : i ∈ s.table.allIndexes := Table.mem_allIndexes_of_mem (List.mem_filter.mp hi).1
      exact ⟨t, ht, name_of_shape shape, owns_of_mem_allIndexes shape hmem⟩
  | @addColumn t c _ table names =>
    have ht : t ∈ set.target.values := mem_of_table? table
    simp only [addColumnStatements, List.mem_append, List.mem_singleton,
      List.mem_ite_nil_right] at hd
    rcases hd with (rfl | ⟨-, rfl⟩) | ⟨-, rfl⟩
    · exact ⟨t, ht, names.mem⟩
    · exact ⟨t, ht, rfl, .unique names.mem⟩
    · exact ⟨t, ht, rfl, .column names.mem⟩
  | @addIndex t i _ table index =>
    obtain rfl := List.mem_singleton.mp hd
    exact ⟨t, mem_of_table? table, rfl, owns_of_index index⟩
  | @makeUnique t c _ table names =>
    obtain rfl := List.mem_singleton.mp hd
    exact ⟨t, mem_of_table? table, rfl, .unique names.mem⟩
  | copy =>
    obtain rfl := List.mem_singleton.mp hd
    trivial
  | @rebuild t s copied _ table shape =>
    have ht : t ∈ set.target.values := mem_of_table? table
    simp only [rebuildStatements, List.mem_append, List.mem_cons, List.not_mem_nil, or_false,
      List.mem_ite_nil_left, List.mem_map] at hd
    rcases hd with (((rfl | rfl) | ⟨-, rfl⟩) | rfl) | ⟨i, hi, rfl⟩
    · trivial
    · exact ⟨t, ht, fun c hc => mem_columns_of_mem_shape shape hc⟩
    · trivial
    · trivial
    · exact ⟨t, ht, name_of_shape shape, owns_of_mem_allIndexes shape hi⟩

/-! ## 2. The statements of a plan -/

theorem exists_does_of_planSteps (h : set.planSteps ms p = .ok steps)
    (hd : d ∈ steps.flatMap PlanStep.statements) :
    ∃ (m : Migration) (pending : List Migration) (q q' : Progress) (ds : List Ddl),
      m.Does set pending q ds q' ∧ d ∈ ds := by
  induction ms generalizing p steps with
  | nil =>
    cases h
    exact absurd hd List.not_mem_nil
  | cons m rest ih =>
    obtain ⟨step, p', after, hstep, hafter, rfl⟩ := planSteps_cons h
    rw [List.flatMap_cons, List.mem_append] at hd
    rcases hd with hd | hd
    · rcases planStep_cases hstep with ⟨rfl, -, -⟩ | ⟨deed, rfl, hdoes⟩
      · exact absurd hd List.not_mem_nil
      · exact ⟨m, rest, p, p', deed.statements, hdoes, hd⟩
    · exact ih hafter hd

/-- **Every statement of a plan carries out a migration.** -/
theorem exists_does_of_compile (h : set.compile = .ok ds) (hd : d ∈ ds) :
    ∃ (m : Migration) (pending : List Migration) (p p' : Progress) (ds' : List Ddl),
      m.Does set pending p ds' p' ∧ d ∈ ds' := by
  obtain ⟨steps, hplan, h⟩ := bind_eq_ok.mp h
  cases h
  obtain ⟨ms, hms, -⟩ := bind_eq_ok.mp hplan
  rw [plan_eq_planSteps hms] at hplan
  exact exists_does_of_planSteps hplan hd

/-- **The statements of a plan take their parts from the tables of the target.** -/
theorem supplies_of_compile (h : set.compile = .ok ds) (hd : d ∈ ds) : set.Supplies d := by
  obtain ⟨m, pending, p, p', ds', hdoes, hmem⟩ := exists_does_of_compile h hd
  exact supplies_of_does hdoes hmem

end MigrationSet
end Tabula
