/-
# Which statements of a plan quote their names

The names in a plan come from its set, where they are arbitrary texts, and so do the expressions that
are defaults.  As long as it can be told where these expressions end, the statements of a plan quote
their names, but for those that copy rows (`quotes_iff_of_compile`).  A column whose name is a keyword
is therefore quoted in one half of a statement and not in the other (`not_quotes_groupMembers`).
-/
import Tabula.Proofs.Migration.Origins
import Tabula.Proofs.Schema.QuotedNames

namespace Tabula

open Tabula.Schema

/-! ## 1. The statements of a plan -/

namespace MigrationSet

variable {set : MigrationSet} {d : Ddl} {ds : List Ddl}

theorem isWhole_of_supplies (hwhole : ∀ t ∈ set.target.values, ∀ c ∈ t.columns, c.default.IsWhole)
    (h : set.Supplies d) : d.IsWhole := by
  cases d with
  | createTable u =>
    obtain ⟨t, ht, hcolumns⟩ := h
    exact fun c hc => hwhole t ht c (hcolumns c hc)
  | addColumn table c =>
    obtain ⟨t, ht, hc⟩ := h
    exact hwhole t ht c hc
  | createTableAs | copyRows | dropTable | renameTable | createIndex => trivial

/-- **A statement of a plan quotes its names exactly if it copies no rows**, as long as it can be told
where the expressions of the target end. -/
theorem quotes_iff_of_compile
    (hwhole : ∀ t ∈ set.target.values, ∀ c ∈ t.columns, c.default.IsWhole)
    (h : set.compile = .ok ds) : ∀ d ∈ ds, d.Quotes ↔ d.copies = false := by
  intro d hd
  exact Ddl.quotes_iff (isWhole_of_supplies hwhole (supplies_of_compile h hd))

end MigrationSet

/-! ## 2. Names that are hard to read -/

/-- A table whose names have blanks, quotes, parentheses and keywords in them. -/
def oddOrders : Table :=
  { name := "my \"orders\""
    columns := [.plain "from" .text,
      { Column.plain "to (date)" .text with default := .expression "lower('A)')" }]
    primaryKey := ["from"]
    foreignKeys := [.single "from" "where (\"x" "a, b"]
    indexes := [.single "by from" "from" false] }

theorem quotes_oddOrders :
    ∃ ds, (MigrationSet.ofMigrations [.ofTable .createTable oddOrders.name] [oddOrders] 1).compile =
      .ok ds ∧ ds ≠ [] ∧ ∀ d ∈ ds, d.Quotes := by
  have hcompile : (MigrationSet.ofMigrations [.ofTable .createTable oddOrders.name]
      [oddOrders] 1).compile = .ok (createStatements oddOrders) := by
    rw [MigrationSet.compile, plan_eq_planSteps rfl, Migration.sort_eq_self (by decide)]
    rfl
  refine ⟨_, hcompile, by simp [createStatements], fun d hd => ?_⟩
  refine (MigrationSet.quotes_iff_of_compile ?_ hcompile d hd).mpr ?_
  · have hvalues : (MigrationSet.ofMigrations [.ofTable .createTable oddOrders.name]
        [oddOrders] 1).target.values = [oddOrders] := rfl
    rw [hvalues]
    simp only [List.mem_singleton, forall_eq]
    decide
  · rcases List.mem_cons.mp hd with rfl | hd
    · rfl
    · obtain ⟨i, -, rfl⟩ := List.mem_map.mp hd
      rfl

/-- A table with a column whose name is a keyword. -/
def groupMembers : Table :=
  { Table.empty "members" with
    columns := [.plain "id" .integer, .plain "group" .text]
    primaryKey := ["id"] }

/-- **A keyword that is quoted where rows are put, and stands as it is where they are taken from.** -/
theorem not_quotes_groupMembers :
    (MigrationSet.ofMigrations [.ofTable .updatePrimaryKey "members"] [groupMembers] 1).compile =
        .ok (rebuildStatements groupMembers ["id", "group"]) ∧
      (Ddl.copyRows "members" "temp_members" ["id", "group"]).text =
        "INSERT INTO \"members\" (\"id\", \"group\") " ++
          "SELECT temp_members.id, temp_members.group FROM temp_members " ++
          "ORDER BY temp_members.rowid ASC" ∧
      ¬∀ d ∈ rebuildStatements groupMembers ["id", "group"], d.Quotes := by
  refine ⟨?_, ?_, fun hquotes => ?_⟩
  · rw [MigrationSet.compile, plan_eq_planSteps rfl, Migration.sort_eq_self (by decide)]
    rfl
  · decide +kernel
  · have hmem : Ddl.copyRows "members" "temp_members" ["id", "group"] ∈
        rebuildStatements groupMembers ["id", "group"] := by
      simp [rebuildStatements, groupMembers, temporaryName, Table.empty]
    exact Ddl.not_quotes_of_copies rfl (hquotes _ hmem)

end Tabula
