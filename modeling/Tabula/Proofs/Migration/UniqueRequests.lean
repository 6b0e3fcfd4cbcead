/-
# Requests for uniqueness

Three kinds of migration ask for uniqueness: that of a column to add, that of a column which is
there, and that of what a name stands for, which is a declared index or else a column.  Each of them
that is not covered creates an index.  The index is unique because the migration asks for it, but
for a declared one: that is created as it is declared.

* `honours_iff_of_does`: a migration that asks for uniqueness and is carried out creates a unique
  index over the columns that it asks for, exactly if it does not stand for a declared index that is
  not unique.
* `MigrationSet.honours_iff_of_plan`: so does each step of a plan.
* `not_honours_startNumbers`: a request for uniqueness that creates an ordinary index.
-/
import Tabula.Proofs.Migration.Moves

namespace Tabula

open Tabula.Schema

/-! ## 1. Requests -/

namespace Migration

/-- Whether a migration asks for uniqueness. -/
def Kind.asksUnique : Kind → Bool
  | addUniqueColumn => true
  | addUniqueIndex => true
  | makeColumnUnique => true
  | _ => false

/-- Nothing is rebuilt for the sake of uniqueness. -/
theorem Kind.rebuilds_of_asksUnique {k : Kind} : k.asksUnique = true → k.rebuilds = false := by
  cases k <;> decide

theorem Kind.eq_addUniqueColumn {k : Kind} :
    k.asksUnique = true → k.addsColumn = true → k = .addUniqueColumn := by
  cases k <;> decide

/-- The declared index that a migration stands for, if it asks for an index by its name. -/
def declared? (m : Migration) (t : Table) : Option Index :=
  if m.kind = .addUniqueIndex then m.column.bind t.index? else none

/-- **The columns for which a migration asks**, each in its direction: those of the declared index
that it stands for, or else the one that it names. -/
def asked? (m : Migration) (t : Table) : Option (List (String × Query.Direction)) :=
  match m.declared? t with
  | some i => some i.columns
  | none => (m.column.bind t.column?).map fun c => [(c.name, .asc)]

/-- **A migration waives the uniqueness** that it asks for, if it stands for a declared index that
is not unique. -/
def Waives (m : Migration) (t : Table) : Prop := ∃ i, m.declared? t = some i ∧ i.unique = false

end Migration

/-- **Statements honour a request**: they create a unique index over the columns. -/
def Honours (ds : List Ddl) (table : String) (columns : List (String × Query.Direction)) : Prop :=
  ∃ i, .createIndex table i ∈ ds ∧ i.unique = true ∧ i.columns = columns

/-! ## 2. One migration -/

section Request

variable {set : MigrationSet} {m : Migration} {pending : List Migration} {p p' : Progress}
  {ds : List Ddl} {t : Table} {c : Column} {i : Index}

theorem asked?_of_declared? (h : m.declared? t = some i) : m.asked? t = some i.columns := by
  rw [Migration.asked?, h]

theorem waives_iff_of_declared? (h : m.declared? t = some i) : m.Waives t ↔ i.unique = false := by
  simp [Migration.Waives, h]

theorem asked?_of_names (hnone : m.declared? t = none) (hc : m.Names t c) :
    m.asked? t = some [(c.name, .asc)] := by
  obtain ⟨key, hkey, hc⟩ := hc
  simp [Migration.asked?, hnone, hkey, hc]

theorem not_waives_of_declared? (h : m.declared? t = none) : ¬m.Waives t := by
  rintro ⟨i, hi, -⟩
  simp [h] at hi

/-- A request by the name of a column is honoured by the unique index over it. -/
theorem honours_iff_of_names (hnone : m.declared? t = none) (hc : m.Names t c)
    (h : .createIndex t.name (t.uniqueIndex c.name) ∈ ds) :
    ∃ columns, m.asked? t = some columns ∧ (Honours ds t.name columns ↔ ¬m.Waives t) :=
  ⟨_, asked?_of_names hnone hc,
    iff_of_true ⟨_, h, rfl, rfl⟩ (not_waives_of_declared? hnone)⟩

/-- The index that a request creates by a name is the declared one, or it is the unique one over a
column. -/
theorem index_cases (hk : m.kind = .addUniqueIndex) (h : m.index t = .ok i) :
    m.declared? t = some i ∨
      m.declared? t = none ∧ ∃ c, m.Names t c ∧ i = t.uniqueIndex c.name := by
  obtain ⟨key, hkey, h⟩ := bind_eq_ok.mp h
  rw [requireColumn_eq_ok] at hkey
  have hdeclared : m.declared? t = t.index? key := by simp [Migration.declared?, hk, hkey]
  rw [hdeclared]
  split at h
  case h_1 j hj =>
    cases h
    exact .inl hj
  case h_2 hnone =>
    split at h
    case h_1 c hc =>
      cases h
      exact .inr ⟨hnone, c, ⟨key, hkey, hc⟩, if_pos hk⟩
    case h_2 => cases h

/-- **A request for uniqueness that is carried out is honoured exactly if it is not waived.** -/
theorem honours_iff_of_does (h : m.Does set pending p ds p') (hk : m.kind.asksUnique = true) :
    ∃ t, set.table? m.table = some t ∧ ∃ columns, m.asked? t = some columns ∧
      (Honours ds t.name columns ↔ ¬m.Waives t) := by
  cases h with
  | @addColumn t c adds table names =>
    have hkind : m.kind = .addUniqueColumn := Migration.Kind.eq_addUniqueColumn hk adds
    have hnone : m.declared? t = none := by simp [Migration.declared?, hkind]
    exact ⟨t, table, honours_iff_of_names hnone names (by simp [addColumnStatements, hkind])⟩
  | @addIndex t i kind table index =>
    have hkind : m.kind = .addUniqueIndex := kind.resolve_left fun hadd => by
      simp [hadd, Migration.Kind.asksUnique] at hk
    refine ⟨t, table, ?_⟩
    rcases index_cases hkind index with hi | ⟨hnone, c, hc, rfl⟩
    · refine ⟨i.columns, asked?_of_declared? hi, ?_⟩
      simp [Honours, waives_iff_of_declared? hi]
    · exact honours_iff_of_names hnone hc List.mem_cons_self
  | @makeUnique t c kind table names =>
    have hnone : m.declared? t = none := by simp [Migration.declared?, kind]
    exact ⟨t, table, honours_iff_of_names hnone names List.mem_cons_self⟩
  | drop kind | create kind | copy kind => simp [kind, Migration.Kind.asksUnique] at hk
  | rebuild kind =>
    rw [Migration.Kind.rebuilds_of_asksUnique hk] at kind
    exact Bool.noConfusion kind

end Request

/-! ## 3. Whole plans -/

/-- **A plan honours each request for uniqueness that it does not cover, exactly if the request is
not waived**: the step creates a unique index on the table that is looked up, over the columns that
the migration asks for. -/
theorem MigrationSet.honours_iff_of_plan {set : MigrationSet} {steps : List PlanStep}
    {step : PlanStep} (hplan : set.plan = .ok steps) (hstep : step ∈ steps)
    (hcarried : step.isCovered = false) (hk : step.migration.kind.asksUnique = true) :
    ∃ t, set.table? step.migration.table = some t ∧
      ∃ columns, step.migration.asked? t = some columns ∧
        (Honours step.statements t.name columns ↔ ¬step.migration.Waives t) := by
  obtain ⟨pending, p, p', hdoes⟩ := does_of_plan hplan hstep hcarried
  exact honours_iff_of_does hdoes hk

/-! ## 4. A request that is waived -/

/-- An ordinary index over the numbers in each race. -/
def startNumbers : Index := ⟨"starters_by_number", false, [("race", .asc), ("number", .asc)]⟩

/-- A unique index over the badges in each race, the latest first. -/
def startBadges : Index := ⟨"starters_by_badge", true, [("race", .desc), ("badge", .asc)]⟩

/-- A table of those who start in a race. -/
def starters : Table :=
  { name := "starters"
    columns := [.plain "id" .integer, .plain "race" .integer, .plain "number" .integer,
      .plain "badge" .text]
    primaryKey := ["id"]
    foreignKeys := []
    indexes := [startNumbers, startBadges] }

/-- A request for a unique index, under a name. -/
def uniqueStarters (name : String) : MigrationSet :=
  .ofMigrations [.ofColumn .addUniqueIndex "starters" name] [starters] 1

/-- **A request for a unique index is answered by an ordinary one**, if the name is that of a
declared index which is ordinary; by the name of a column it is answered by a unique one. -/
theorem not_honours_startNumbers :
    (Migration.ofColumn .addUniqueIndex "starters" "starters_by_number").asked? starters =
        some startNumbers.columns ∧
      (uniqueStarters "starters_by_number").compile = .ok [.createIndex "starters" startNumbers] ∧
      ¬Honours [.createIndex "starters" startNumbers] "starters" startNumbers.columns ∧
      Ddl.text (.createIndex "starters" startNumbers) =
        "CREATE INDEX IF NOT EXISTS \"starters_by_number\" ON \"starters\" " ++
          "(\"race\" ASC, \"number\" ASC)" ∧
      (uniqueStarters "number").compile =
        .ok [.createIndex "starters" (starters.uniqueIndex "number")] := by
  refine ⟨rfl, ?_, ?_, by decide, ?_⟩
  · rw [MigrationSet.compile, plan_eq_planSteps rfl, Migration.sort_eq_self (by decide)]
    rfl
  · rintro ⟨i, hi, hunique, -⟩
    obtain rfl : i = startNumbers := by simpa using hi
    exact absurd hunique (by decide)
  · rw [MigrationSet.compile, plan_eq_planSteps rfl, Migration.sort_eq_self (by decide)]
    rfl

theorem honours_startBadges :
    ∃ step, (uniqueStarters "starters_by_badge").plan = .ok [step] ∧ step.isCovered = false ∧
      step.migration.kind.asksUnique = true ∧
      Honours step.statements "starters" startBadges.columns := by
  have hplan : (uniqueStarters "starters_by_badge").plan =
      .ok [⟨.ofColumn .addUniqueIndex "starters" "starters_by_badge",
        .carriedOut (.ofStatements [.createIndex "starters" startBadges])⟩] := by
    rw [plan_eq_planSteps rfl, Migration.sort_eq_self (by decide)]
    rfl
  refine ⟨_, hplan, rfl, rfl, ?_⟩
  obtain ⟨t, ht, columns, hcolumns, hiff⟩ :=
    MigrationSet.honours_iff_of_plan hplan List.mem_cons_self rfl rfl
  have hfound : (uniqueStarters "starters_by_badge").table? "starters" = some starters := rfl
  obtain rfl : starters = t := Option.some.inj (hfound.symm.trans ht)
  obtain rfl : startBadges.columns = columns := Option.some.inj hcolumns
  refine hiff.mpr ?_
  rintro ⟨i, hi, hordinary⟩
  obtain rfl : startBadges = i := Option.some.inj hi
  exact absurd hordinary (by decide)

end Tabula
