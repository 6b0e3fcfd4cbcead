/-
# Which declared unique indexes a created table gets

CREATE TABLE comes with the unique indexes that the table declares, less those over columns that are
left to later migrations.  Such an index is not created when its columns are added, but when a
migration requests it.

* `MigrationSet.LeavesOut`: a declared index is over a column that is left to later migrations, and
  none of these requests it.
* `mem_indexes_iff_of_compile`: no other declared unique index of a created table is missing after
  the last CREATE TABLE.
* `not_getsUniqueIndexes_scores`: some are missing, and a table that shares its name with another
  one, or with a temporary one, may miss all of them.
-/
import Tabula.Proofs.Migration.Effects

namespace Tabula

open Tabula.Schema

namespace MigrationSet

/-- **A declared index of a created table is left out**: it is over a column that is left to a later
ADD COLUMN, and no migration requests it. -/
def LeavesOut (set : MigrationSet) (t : Table) (ms : List Migration) (i : Index) : Prop :=
  (∃ c ∈ i.columns, set.Postpones t ms c.1) ∧
    ∀ m ∈ ms, set.concerns t m = true → ¬m.Requests t i

variable {set : MigrationSet} {t : Table} {m : Migration} {ms rest : List Migration}
  {i : Index} {ds : List Ddl} {step : PlanStep} {before after steps : List PlanStep}
  {p : Progress} {s : Shape} {st : Standing}

/-! ## 1. The last CREATE TABLE -/

/-- The last step that makes a created table anew comes before columns are added. -/
theorem exists_last_remade (ha : set.StandsAlone t ms) (hms : set.migrations = .ok ms)
    (hc : set.creates t ms = true) (hplan : set.plan = .ok steps) :
    ∃ before step after, steps = before ++ step :: after ∧ set.Remade t step ∧
      (∀ y ∈ after, ¬set.Remade t y) ∧ step.migration.kind.priority < 10 := by
  obtain ⟨m, hm, hcreates⟩ := List.any_eq_true.mp hc
  simp only [isCreation, Bool.and_eq_true, decide_eq_true_eq] at hcreates
  obtain ⟨hk, hconcerns⟩ := hcreates
  have hremakes : set.remakes t m = true := by simp [remakes, hk, hconcerns]
  -- A step that plans the creation makes the table anew.
  have hcreation : ∀ y ∈ steps, y.migration = m → set.Remade t y := by
    rintro y hy rfl
    exact remade_of_mem hplan hy hremakes (by rw [hk]; decide)
  obtain ⟨y, hy, hym⟩ := (mem_iff_of_plan hms hplan).mp hm
  obtain ⟨before, step, after, rfl, hstep, hlast⟩ := exists_last ⟨y, hy, hcreation y hy hym⟩
  refine ⟨before, step, after, rfl, hstep, hlast, ?_⟩
  obtain ⟨rest, p, s, hreaches, -, -, hneeded, -⟩ := standsSince_of_plan ha hms hplan hstep hlast
  refine (kind_of_remakes hstep.2).resolve_right fun hf => hneeded hf ?_
  -- Where a foreign key is added, the table is created already.
  obtain ⟨x, hx, hxm⟩ := mem_before_of_priority_lt hreaches hm (by rw [hk, hf]; decide)
  rw [mem_created_iff_of_reaches hreaches]
  exact ⟨x, hx, hcreation x (List.mem_append_left _ hx) hxm⟩

/-- All columns are added after it. -/
theorem postpones_iff_of_reaches {column : String}
    (h : set.Reaches (Migration.sort ms) before (m :: rest) p) (hm : m.kind.priority < 10) :
    set.Postpones t rest column ↔ set.Postpones t ms column := by
  constructor
  · rintro ⟨m', hm', hc⟩
    exact ⟨m', h.mem_iff.mpr (.inr (List.mem_cons_of_mem _ hm')), hc⟩
  · rintro ⟨m', hm', c, ⟨hadds, hc⟩, hcon⟩
    have hlt : m.kind.priority < m'.kind.priority :=
      Migration.Kind.priority_of_addsColumn hadds ▸ hm
    exact ⟨m', mem_rest_of_priority_lt h hm' hlt, c, ⟨hadds, hc⟩, hcon⟩

/-! ## 2. Indexes since then -/

/-- A declared unique index is there if the table was made with its columns, or if it is
requested. -/
theorem StandsSince.mem_indexes_iff (h : set.StandsSince t step after s st)
    (ha : set.StandsAlone t ms) (hs : set.shape t (after.map PlanStep.migration) = .ok s)
    (hi : i ∈ t.indexes) (hu : i.unique = true) :
    i ∈ st.indexes ↔ (∀ c ∈ i.columns, c.1 ∉ s.deferred) ∨
      ∃ y ∈ after, set.concerns t y.migration = true ∧ y.migration.Requests t i := by
  have hcreated : i ∈ s.table.createdIndexes step.migration.kind.rebuilds ↔
      ∀ c ∈ i.columns, c.1 ∉ s.deferred := by
    rw [Table.mem_createdIndexes_iff _ hu, table_of_shape hs, Table.mem_indexes_without]
    exact and_iff_right hi
  rw [h.indexes, hcreated]
  constructor
  · rintro (hkept | ⟨y, hy, -, hgranted⟩)
    · exact .inl hkept
    · exact .inr ⟨y, hy, hgranted⟩
  · rintro (hkept | ⟨y, hy, hconcerns, hrequests⟩)
    · exact .inl hkept
    · cases hcovered : y.isCovered with
      | false => exact .inr ⟨y, hy, hcovered, hconcerns, hrequests⟩
      | true =>
        obtain ⟨q, hq, hcov⟩ := h.covered y hy hcovered
        left
        intro c hc
        have hkept := kept_of_requests ha hcov hconcerns hrequests c hc
        rw [hq] at hkept
        simpa using hkept

/-- **A created table has each unique index that it declares, unless the index is left out**: the
statements since its last CREATE TABLE create it. -/
theorem mem_indexes_iff_of_compile (ha : set.StandsAlone t ms) (hms : set.migrations = .ok ms)
    (hc : set.creates t ms = true) (h : set.compile = .ok ds) :
    ∃ st, Standing.ofStatements t.name ds = some st ∧
      ∀ i ∈ t.indexes, i.unique = true → (i ∈ st.indexes ↔ ¬set.LeavesOut t ms i) := by
  obtain ⟨steps, hplan, h⟩ := bind_eq_ok.mp h
  cases h
  obtain ⟨before, step, after, rfl, hstep, hlast, hprio⟩ := exists_last_remade ha hms hc hplan
  obtain ⟨rest, p, s, hreaches, hafter, hs, -, hst⟩ :=
    standsSince_of_plan ha hms hplan hstep hlast
  obtain ⟨st, hst, hsince⟩ := hst none
  refine ⟨st, hst, fun i hi hu => ?_⟩
  have hdeferred : ∀ x, x ∈ s.deferred ↔ set.Postpones t ms x := fun x =>
    (mem_deferred_of_shape hs).trans (postpones_iff_of_reaches hreaches hprio)
  have hrequested : (∃ y ∈ after, set.concerns t y.migration = true ∧ y.migration.Requests t i) ↔
      ∃ m ∈ ms, set.concerns t m = true ∧ m.Requests t i := by
    constructor
    · rintro ⟨y, hy, hrequests⟩
      have hmem : y.migration ∈ rest := hafter ▸ List.mem_map_of_mem hy
      exact ⟨_, hreaches.mem_iff.mpr (.inr (List.mem_cons_of_mem _ hmem)), hrequests⟩
    · rintro ⟨m, hm, hconcerns, hrequests⟩
      have hmem := mem_rest_of_priority_lt hreaches hm (hprio.trans_le hrequests.le_priority)
      rw [← hafter] at hmem
      obtain ⟨y, hy, rfl⟩ := List.mem_map.mp hmem
      exact ⟨y, hy, hconcerns, hrequests⟩
  rw [hsince.mem_indexes_iff ha (hafter ▸ hs) hi hu, hrequested]
  simp only [hdeferred]
  rw [LeavesOut, not_and_or]
  push Not
  rfl

end MigrationSet

/-! ## 3. Sets that leave indexes out -/

/-- The statements since the last CREATE TABLE create each unique index that a table declares. -/
def Schema.Table.GetsUniqueIndexes (t : Table) (ds : List Ddl) : Prop :=
  ∃ st, Standing.ofStatements t.name ds = some st ∧
    ∀ i ∈ t.indexes, i.unique = true → i ∈ st.indexes

/-- A table that declares two unique indexes. -/
def scores : Table :=
  { name := "scores"
    columns := [.plain "id" .integer, .plain "player" .text, .plain "points" .integer]
    primaryKey := ["id"]
    foreignKeys := []
    indexes :=
      [.single "scores_player_key" "player" true, .single "scores_points_key" "points" true] }

/-- It has the name that tables called `scores` have while they are rebuilt. -/
def tempScores : Table := { scores with name := "temp_scores" }

/-- The table is created, and gets a column on its own. -/
def newScores : MigrationSet :=
  .ofMigrations [.ofTable .createTable "scores", .ofColumn .addColumn "scores" "points"] [scores] 1

/-- Two tables of one name are created. -/
def twinScores : MigrationSet :=
  ⟨.ordered [.ofTable .createTable "a", .ofTable .createTable "b"],
    .ofList [("a", scores), ("b", scores.without ["points"])], 1, .names⟩

/-- A table is created, and another one is changed by way of a table of its name. -/
def tempScoresThen (kind : Migration.Kind) : MigrationSet :=
  .ofMigrations [.ofTable .createTable "temp_scores", .ofTable kind "scores"] [scores, tempScores] 1

/-- **A declared unique index is not created with its column**, nor are those of a table whose name
another table has, for good or for a time. -/
theorem not_getsUniqueIndexes_scores :
    (∃ ds, newScores.compile = .ok ds ∧ ¬scores.GetsUniqueIndexes ds) ∧
      (∃ ds, twinScores.compile = .ok ds ∧ ¬scores.GetsUniqueIndexes ds) ∧
      (∃ ds, (tempScoresThen .updatePrimaryKey).compile = .ok ds ∧
        ¬tempScores.GetsUniqueIndexes ds) ∧
      ∃ ds, (tempScoresThen .copyTable).compile = .ok ds ∧ ¬tempScores.GetsUniqueIndexes ds := by
  have hpoints : Index.single "scores_points_key" "points" true ∈ scores.indexes := by
    simp [scores]
  refine ⟨⟨createStatements (scores.without ["points"]) ++
      [.addColumn "scores" (.plain "points" .integer)], ?_, ?_⟩,
    ⟨createStatements scores ++ createStatements (scores.without ["points"]), ?_, ?_⟩,
    ⟨createStatements tempScores ++ rebuildStatements scores ["id", "player", "points"], ?_, ?_⟩,
    ⟨createStatements tempScores ++
      [.createTableAs "temp_scores" "scores" ["id", "player", "points"]], ?_, ?_⟩⟩
  · rw [MigrationSet.compile, plan_eq_planSteps rfl, Migration.sort_eq_self (by decide)]
    rfl
  · rintro ⟨st, hst, h⟩
    obtain rfl := Option.some.inj hst
    exact absurd (h _ hpoints rfl) (by decide)
  · rw [MigrationSet.compile, plan_eq_planSteps rfl, Migration.sort_eq_self (by decide)]
    rfl
  · rintro ⟨st, hst, h⟩
    obtain rfl := Option.some.inj hst
    exact absurd (h _ hpoints rfl) (by decide)
  · rw [MigrationSet.compile, plan_eq_planSteps rfl, Migration.sort_eq_self (by decide)]
    rfl
  · rintro ⟨st, hst, h⟩
    have hnone : Standing.ofStatements tempScores.name (createStatements tempScores ++
        rebuildStatements scores ["id", "player", "points"]) = none := rfl
    rw [hnone] at hst
    exact absurd hst (by simp)
  · rw [MigrationSet.compile, plan_eq_planSteps rfl, Migration.sort_eq_self (by decide)]
    rfl
  · rintro ⟨st, hst, h⟩
    have hnone : Standing.ofStatements tempScores.name (createStatements tempScores ++
        [.createTableAs "temp_scores" "scores" ["id", "player", "points"]]) = none := rfl
    rw [hnone] at hst
    exact absurd hst (by simp)

/-- A migration requests the index of the column. -/
def indexedScores : MigrationSet :=
  .ofMigrations [.ofTable .createTable "scores", .ofColumn .addColumn "scores" "points",
    .ofColumn .addUniqueIndex "scores" "scores_points_key"] [scores] 1

theorem getsUniqueIndexes_indexedScores :
    ∃ ds, indexedScores.compile = .ok ds ∧ scores.GetsUniqueIndexes ds := by
  have hcompile : indexedScores.compile = .ok (createStatements (scores.without ["points"]) ++
      [.addColumn "scores" (.plain "points" .integer),
        .createIndex "scores" (.single "scores_points_key" "points" true)]) := by
    rw [MigrationSet.compile, plan_eq_planSteps rfl, Migration.sort_eq_self (by decide)]
    rfl
  have ha : indexedScores.StandsAlone scores
      [.ofTable .createTable "scores", .ofColumn .addColumn "scores" "points",
        .ofColumn .addUniqueIndex "scores" "scores_points_key"] := by
    refine ⟨fun u hu _ => List.mem_singleton.mp hu, by decide, fun m hm hk => ?_⟩
    exact absurd hk (by revert m; decide)
  obtain ⟨st, hst, h⟩ := MigrationSet.mem_indexes_iff_of_compile ha rfl (by decide) hcompile
  refine ⟨_, hcompile, st, hst, fun i hi hu => (h i hi hu).mpr ?_⟩
  simp only [scores, List.mem_cons, List.not_mem_nil, or_false] at hi
  rcases hi with rfl | rfl
  · -- The player is not left to a later migration.
    rintro ⟨⟨c, hc, m, hm, d, ⟨hadds, -, hd⟩, -, hname⟩, -⟩
    obtain rfl := List.mem_singleton.mp hc
    simp only [List.mem_cons, List.not_mem_nil, or_false] at hm
    rcases hm with rfl | rfl | rfl
    · exact absurd hadds (by decide)
    · obtain rfl := hd.eq (d := .plain "points" .integer) ⟨"points", rfl, rfl⟩
      exact absurd hname (by decide)
    · exact absurd hadds (by decide)
  · rintro ⟨-, hno⟩
    exact hno (.ofColumn .addUniqueIndex "scores" "scores_points_key") (by simp) rfl
      (.index (.inr rfl) rfl)

end Tabula
