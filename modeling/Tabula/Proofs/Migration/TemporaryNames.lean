/-
# Which tables are dropped and renamed

A plan drops a table for one of two reasons: a migration asks for it, or the table is what is left
of one that was rebuilt, under its temporary name.  That name is made of the name of the table alone,
whatever other tables there are, so that it may be the name of a table that is to stay.

* `MigrationSet.Rebuilds`: a table is rebuilt, as far as its migrations tell.
* `rebuilds_iff_of_plan`: these are the tables that a step of the plan rebuilds.
* `dropTable_mem_iff_of_compile`, `renameTable_mem_iff_of_compile`: all that is dropped and renamed.
* `spares_iff_of_compile`: no table of the target is dropped unasked or overwritten, exactly if none
  has the temporary name of a table that is rebuilt.
* `not_spares_guests`: a table that is dropped unasked.
-/
import Tabula.Proofs.Migration.Effects
import Tabula.Proofs.Migration.Origins

namespace Tabula

open Tabula.Schema

namespace MigrationSet

/-- **A table is rebuilt**: a migration asks for it.  A new foreign key does so only if the table is
not created. -/
def Rebuilds (set : MigrationSet) (ms : List Migration) (t : Table) : Prop :=
  ∃ m ∈ ms, m.kind.rebuilds = true ∧ set.concerns t m = true ∧
    (m.kind = .addForeignKey → set.creates t ms = false)

/-- **Statements spare the tables of the target**: they drop a table only if a migration asks for it
or if it is a temporary one that is no table of the target, and give no table the name of one. -/
structure Spares (set : MigrationSet) (ms : List Migration) (ds : List Ddl) : Prop where
  dropped : ∀ name, .dropTable name ∈ ds →
    (∃ m ∈ ms, m.kind = .dropTable ∧ m.table = name) ∨
      (∃ t ∈ set.target.values, name = temporaryName t.name) ∧
        name ∉ set.target.values.map (·.name)
  renamed : ∀ old new, .renameTable old new ∈ ds → new ∉ set.target.values.map (·.name)

variable {set : MigrationSet} {ms pending : List Migration} {m : Migration} {t : Table}
  {p p' : Progress} {ds : List Ddl} {before after steps : List PlanStep} {step : PlanStep}
  {name old new : String}

/-! ## 1. What one migration drops and renames -/

/-- The only table that is dropped when one is rebuilt is the old one. -/
theorem dropTable_mem_rebuildStatements {copied : List String} :
    .dropTable name ∈ rebuildStatements t copied ↔ name = temporaryName t.name := by
  simp [rebuildStatements]

/-- It is the only one that is renamed. -/
theorem renameTable_mem_rebuildStatements {copied : List String} :
    .renameTable old new ∈ rebuildStatements t copied ↔
      old = t.name ∧ new = temporaryName t.name := by
  simp [rebuildStatements]

/-- **A deed drops the table that it is asked to drop, or what is left of one that it rebuilds.** -/
theorem dropTable_mem_iff_of_does (h : m.Does set pending p ds p') :
    .dropTable name ∈ ds ↔ m.kind = .dropTable ∧ m.table = name ∨
      m.kind.rebuilds = true ∧ ∃ t, set.table? m.table = some t ∧ name = temporaryName t.name := by
  cases h with
  | drop kind => simp [kind, Migration.Kind.rebuilds, eq_comm]
  | create kind => simp [kind, Migration.Kind.rebuilds, createStatements]
  | addColumn adds =>
    have hk : m.kind ≠ .dropTable := fun hk => by simp [hk, Migration.Kind.addsColumn] at adds
    simp [hk, Migration.Kind.rebuilds_of_addsColumn adds, addColumnStatements]
  | addIndex kind => rcases kind with kind | kind <;> simp [kind, Migration.Kind.rebuilds]
  | makeUnique kind | copy kind => simp [kind, Migration.Kind.rebuilds]
  | rebuild kind table shape =>
    have hk : m.kind ≠ .dropTable := fun hk => by simp [hk, Migration.Kind.rebuilds] at kind
    simp [hk, kind, table, dropTable_mem_rebuildStatements, name_of_shape shape]

/-- **A deed renames a table that it rebuilds.** -/
theorem renameTable_mem_iff_of_does (h : m.Does set pending p ds p') :
    .renameTable old new ∈ ds ↔ m.kind.rebuilds = true ∧
      ∃ t, set.table? m.table = some t ∧ old = t.name ∧ new = temporaryName t.name := by
  cases h with
  | drop kind | makeUnique kind | copy kind => simp [kind, Migration.Kind.rebuilds]
  | create kind => simp [kind, Migration.Kind.rebuilds, createStatements]
  | addColumn adds =>
    simp [Migration.Kind.rebuilds_of_addsColumn adds, addColumnStatements]
  | addIndex kind => rcases kind with kind | kind <;> simp [kind, Migration.Kind.rebuilds]
  | rebuild kind table shape =>
    simp [kind, table, renameTable_mem_rebuildStatements, name_of_shape shape]

/-! ## 2. Which tables are rebuilt -/

theorem remakes_of_rebuilds (hk : m.kind.rebuilds = true) (hc : set.concerns t m = true) :
    set.remakes t m = true := by
  simp [remakes, hk, hc]

/-- A table to which a new foreign key is added without a step was made anew before. -/
theorem exists_remade_of_covered (hreaches : set.Reaches (Migration.sort ms) before pending p)
    (hk : m.kind = .addForeignKey) (hc : set.concerns t m = true) (h : p.Covered set m) :
    ∃ y ∈ before, set.Remade t y := by
  refine (mem_created_iff_of_reaches hreaches).mp ?_
  cases h with
  | column adds => simp [hk, Migration.Kind.addsColumn] at adds
  | index kind => simp [hk] at kind
  | keys _ table created => exact name_of_concerns hc table ▸ created

/-- A table that is created has been created when foreign keys are added to it. -/
theorem mem_created_of_creates (hplan : set.plan = .ok (before ++ after))
    (hreaches : set.Reaches (Migration.sort ms) before (m :: pending) p)
    (hk : m.kind = .addForeignKey) (hc : set.creates t ms = true) : t.name ∈ p.created := by
  obtain ⟨m', hm', hcreation⟩ := List.any_eq_true.mp hc
  simp only [isCreation, Bool.and_eq_true, decide_eq_true_eq] at hcreation
  obtain ⟨y, hy, rfl⟩ := mem_before_of_priority_lt hreaches hm' (by rw [hcreation.1, hk]; decide)
  have hremakes : set.remakes t y.migration = true := by simp [remakes, hcreation]
  refine (mem_created_iff_of_reaches hreaches).mpr ⟨y, hy, ?_⟩
  exact remade_of_mem hplan (List.mem_append_left _ hy) hremakes (by rw [hcreation.1]; decide)

/-- A deed for a new foreign key is done for a table that was not made anew before. -/
theorem not_mem_created_of_does (hk : m.kind = .addForeignKey) (hc : set.concerns t m = true)
    (h : m.Does set pending p ds p') : t.name ∉ p.created := by
  cases h with
  | rebuild _ table _ _ needed => exact name_of_concerns hc table ▸ needed hk
  | addColumn adds => simp [hk, Migration.Kind.addsColumn] at adds
  | addIndex kind => simp [hk] at kind
  | drop kind | create kind | makeUnique kind | copy kind => simp [hk] at kind

/-- **The tables that a plan rebuilds are those for which a migration asks it**, though the one that
does need not be carried out itself. -/
theorem rebuilds_iff_of_plan (hms : set.migrations = .ok ms) (hplan : set.plan = .ok steps) :
    set.Rebuilds ms t ↔
      ∃ step ∈ steps, set.Remade t step ∧ step.migration.kind.rebuilds = true := by
  constructor
  · rintro ⟨m, hm, hk, hc, hcreates⟩
    obtain ⟨step, hstep, rfl⟩ := (mem_iff_of_plan hms hplan).mp hm
    have hremakes := remakes_of_rebuilds hk hc
    by_cases hcovered : step.isCovered = false
    · exact ⟨step, hstep, ⟨hcovered, hremakes⟩, hk⟩
    -- Only a new foreign key is covered, by a step that rebuilt the table for another reason.
    · obtain ⟨before, after, rfl⟩ := List.append_of_mem hstep
      obtain ⟨rest, p, hreaches, hcov⟩ := covered_of_plan hms hplan (by simpa using hcovered)
      have hkey : step.migration.kind = .addForeignKey := by
        by_contra hkey
        exact not_covered_of_remakes hremakes hkey hcov
      obtain ⟨y, hy, hremade⟩ := exists_remade_of_covered hreaches hkey hc hcov
      refine ⟨y, List.mem_append_left _ hy, hremade, ?_⟩
      have hmem : y.migration ∈ ms := hreaches.mem_iff.mpr (.inl (List.mem_map_of_mem hy))
      have hno := List.any_eq_false.mp (hcreates hkey) y.migration hmem
      have hyes := hremade.2
      simp only [remakes, isCreation, Bool.and_eq_true, Bool.or_eq_true] at hyes hno
      exact hyes.1.resolve_left fun hcreate => hno ⟨hcreate, hyes.2⟩
  · rintro ⟨step, hstep, ⟨hcarried, hremakes⟩, hk⟩
    have hc : set.concerns t step.migration = true := by
      simpa [remakes, hk] using hremakes
    obtain ⟨before, after, rfl⟩ := List.append_of_mem hstep
    obtain ⟨rest, p, p', hreaches, hplanned, -⟩ := reaches_of_plan_cons hms hplan
    have hdoes := does_of_planStep hplanned hcarried
    refine ⟨step.migration, hreaches.mem_iff.mpr (.inr List.mem_cons_self), hk, hc, fun hkey => ?_⟩
    exact Bool.eq_false_iff.mpr fun hcreates => not_mem_created_of_does hkey hc hdoes
      (mem_created_of_creates hplan hreaches hkey hcreates)

/-! ## 3. What a plan drops and renames -/

/-- Statements come from the steps that are carried out. -/
theorem mem_flatMap_statements {d : Ddl} : d ∈ steps.flatMap PlanStep.statements ↔
    ∃ step ∈ steps, step.isCovered = false ∧ d ∈ step.statements := by
  rw [List.mem_flatMap]
  refine exists_congr fun step => and_congr_right fun _ => ?_
  cases step with
  | mk m action => cases action <;> simp [PlanStep.statements, PlanStep.isCovered]

/-- What is said of the names of rebuilt tables may be said of the steps that rebuild them. -/
theorem exists_rebuild_iff (P : String → Prop) (hms : set.migrations = .ok ms)
    (hplan : set.plan = .ok steps) :
    (∃ step ∈ steps, step.isCovered = false ∧ step.migration.kind.rebuilds = true ∧
        ∃ t, set.table? step.migration.table = some t ∧ P t.name) ↔
      ∃ t ∈ set.target.values, set.Rebuilds ms t ∧ P t.name := by
  constructor
  · rintro ⟨step, hstep, hcarried, hk, t, ht, hname⟩
    have hremakes := remakes_of_rebuilds hk (concerns_of_table? ht rfl)
    exact ⟨t, mem_of_table? ht,
      (rebuilds_iff_of_plan hms hplan).mpr ⟨step, hstep, ⟨hcarried, hremakes⟩, hk⟩, hname⟩
  · rintro ⟨t, -, hrebuilds, hname⟩
    obtain ⟨step, hstep, ⟨hcarried, hremakes⟩, hk⟩ := (rebuilds_iff_of_plan hms hplan).mp hrebuilds
    simp only [remakes, Bool.and_eq_true] at hremakes
    obtain ⟨u, hu, heq⟩ : ∃ u, set.table? step.migration.table = some u ∧ u.name = t.name := by
      simpa [concerns, Option.any_eq_true] using hremakes.2
    exact ⟨step, hstep, hcarried, hk, u, hu, heq ▸ hname⟩

/-- No migration that drops a table is covered. -/
theorem not_covered_of_dropTable (hk : m.kind = .dropTable) : ¬p.Covered set m := by
  intro h
  cases h with
  | column adds => simp [hk, Migration.Kind.addsColumn] at adds
  | index kind | keys kind => simp [hk] at kind

section Compile

variable (hms : set.migrations = .ok ms) (h : set.compile = .ok ds)

include hms h

/-- **A plan drops the tables that it is asked to drop, and what is left of those that it
rebuilds.** -/
theorem dropTable_mem_iff_of_compile : .dropTable name ∈ ds ↔
    (∃ m ∈ ms, m.kind = .dropTable ∧ m.table = name) ∨
      ∃ t ∈ set.target.values, set.Rebuilds ms t ∧ name = temporaryName t.name := by
  obtain ⟨steps, hplan, hds⟩ := bind_eq_ok.mp h
  cases hds
  refine mem_flatMap_statements.trans (.trans ?_
    (or_congr_right (exists_rebuild_iff (fun x => name = temporaryName x) hms hplan)))
  constructor
  · rintro ⟨step, hstep, hcarried, hd⟩
    obtain ⟨pending, p, p', hdoes⟩ := does_of_plan hplan hstep hcarried
    rcases (dropTable_mem_iff_of_does hdoes).mp hd with hdrop | hrebuild
    · exact .inl ⟨_, (mem_iff_of_plan hms hplan).mpr ⟨step, hstep, rfl⟩, hdrop⟩
    · exact .inr ⟨step, hstep, hcarried, hrebuild⟩
  · rintro (⟨m, hm, hk, hname⟩ | ⟨step, hstep, hcarried, hrebuild⟩)
    · obtain ⟨step, hstep, rfl⟩ := (mem_iff_of_plan hms hplan).mp hm
      have hcarried := carried_of_plan hplan hstep fun _ => not_covered_of_dropTable hk
      obtain ⟨pending, p, p', hdoes⟩ := does_of_plan hplan hstep hcarried
      exact ⟨step, hstep, hcarried, (dropTable_mem_iff_of_does hdoes).mpr (.inl ⟨hk, hname⟩)⟩
    · obtain ⟨pending, p, p', hdoes⟩ := does_of_plan hplan hstep hcarried
      exact ⟨step, hstep, hcarried, (dropTable_mem_iff_of_does hdoes).mpr (.inr hrebuild)⟩

/-- **A plan gives the tables that it rebuilds their temporary names**, and renames no other. -/
theorem renameTable_mem_iff_of_compile : .renameTable old new ∈ ds ↔
    ∃ t ∈ set.target.values, set.Rebuilds ms t ∧ old = t.name ∧ new = temporaryName t.name := by
  obtain ⟨steps, hplan, hds⟩ := bind_eq_ok.mp h
  cases hds
  refine mem_flatMap_statements.trans (.trans ?_
    (exists_rebuild_iff (fun x => old = x ∧ new = temporaryName x) hms hplan))
  refine exists_congr fun step => and_congr_right fun hstep => and_congr_right fun hcarried => ?_
  obtain ⟨pending, p, p', hdoes⟩ := does_of_plan hplan hstep hcarried
  exact renameTable_mem_iff_of_does hdoes

/-- **No table of the target is dropped unasked or overwritten, exactly if none has the temporary
name of one that is rebuilt.**  All that is dropped is what a migration asks for and what is left of
the tables that are rebuilt, and these are all that is renamed. -/
theorem spares_iff_of_compile :
    (∀ name, .dropTable name ∈ ds ↔ (∃ m ∈ ms, m.kind = .dropTable ∧ m.table = name) ∨
      ∃ t ∈ set.target.values, set.Rebuilds ms t ∧ name = temporaryName t.name) ∧
    (∀ old new, .renameTable old new ∈ ds ↔
      ∃ t ∈ set.target.values, set.Rebuilds ms t ∧ old = t.name ∧ new = temporaryName t.name) ∧
    (set.Spares ms ds ↔ ∀ t ∈ set.target.values, set.Rebuilds ms t →
      temporaryName t.name ∉ set.target.values.map (·.name)) := by
  refine ⟨fun _ => dropTable_mem_iff_of_compile hms h,
    fun _ _ => renameTable_mem_iff_of_compile hms h, fun hspares t ht hrebuilds => ?_,
    fun hfree => ⟨fun name hd => ?_, fun old new hd => ?_⟩⟩
  · exact hspares.renamed t.name _
      ((renameTable_mem_iff_of_compile hms h).mpr ⟨t, ht, hrebuilds, rfl, rfl⟩)
  · rcases (dropTable_mem_iff_of_compile hms h).mp hd with hasked | ⟨t, ht, hrebuilds, rfl⟩
    · exact .inl hasked
    · exact .inr ⟨⟨t, ht, rfl⟩, hfree t ht hrebuilds⟩
  · obtain ⟨t, ht, hrebuilds, -, rfl⟩ := (renameTable_mem_iff_of_compile hms h).mp hd
    exact hfree t ht hrebuilds

end Compile
end MigrationSet

/-! ## 4. A table that is dropped unasked -/

/-- A table of guests. -/
def guests : Table :=
  { name := "guests"
    columns := [.plain "id" .integer, .plain "name" .text]
    primaryKey := ["id"]
    foreignKeys := []
    indexes := [] }

/-- The guests get another primary key, beside another table of people. -/
def rekeyedGuests (other : String) : MigrationSet :=
  .ofMigrations [.ofTable .updatePrimaryKey "guests"] [guests, { guests with name := other }] 1

/-- **Whoever is a temporary guest is dropped**, when the guests get another primary key. -/
theorem not_spares_guests :
    (rekeyedGuests "temp_guests").compile = .ok (rebuildStatements guests ["id", "name"]) ∧
      .renameTable "guests" "temp_guests" ∈ rebuildStatements guests ["id", "name"] ∧
      .dropTable "temp_guests" ∈ rebuildStatements guests ["id", "name"] ∧
      "temp_guests" ∈ (rekeyedGuests "temp_guests").target.values.map (·.name) ∧
      ¬(rekeyedGuests "temp_guests").Spares [.ofTable .updatePrimaryKey "guests"]
        (rebuildStatements guests ["id", "name"]) := by
  have hrenamed : .renameTable "guests" "temp_guests" ∈ rebuildStatements guests ["id", "name"] :=
    MigrationSet.renameTable_mem_rebuildStatements.mpr ⟨rfl, rfl⟩
  have hdropped : .dropTable "temp_guests" ∈ rebuildStatements guests ["id", "name"] :=
    MigrationSet.dropTable_mem_rebuildStatements.mpr rfl
  have htaken : "temp_guests" ∈ (rekeyedGuests "temp_guests").target.values.map (·.name) := by
    decide
  refine ⟨?_, hrenamed, hdropped, htaken, fun hspares => hspares.renamed _ _ hrenamed htaken⟩
  rw [MigrationSet.compile, plan_eq_planSteps rfl, Migration.sort_eq_self (by decide)]
  rfl

theorem spares_guests :
    (rekeyedGuests "hosts").compile = .ok (rebuildStatements guests ["id", "name"]) ∧
      (rekeyedGuests "hosts").Spares [.ofTable .updatePrimaryKey "guests"]
        (rebuildStatements guests ["id", "name"]) := by
  have hcompile : (rekeyedGuests "hosts").compile =
      .ok (rebuildStatements guests ["id", "name"]) := by
    rw [MigrationSet.compile, plan_eq_planSteps rfl, Migration.sort_eq_self (by decide)]
    rfl
  have hvalues : (rekeyedGuests "hosts").target.values.map (·.name) = ["guests", "hosts"] := rfl
  obtain ⟨-, -, hiff⟩ := MigrationSet.spares_iff_of_compile rfl hcompile
  refine ⟨hcompile, hiff.mpr fun t ht _ => ?_⟩
  have hname : t.name = "guests" ∨ t.name = "hosts" := by
    have hmem : t.name ∈ (rekeyedGuests "hosts").target.values.map (·.name) :=
      List.mem_map_of_mem ht
    simpa [hvalues] using hmem
  rw [hvalues]
  rcases hname with hname | hname <;> rw [hname] <;> decide

end Tabula
