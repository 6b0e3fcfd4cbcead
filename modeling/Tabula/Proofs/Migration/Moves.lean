/-
# What one step of a plan can do

Planning fails at the first migration that names something unknown.  A plan that does not fail is
a chain of moves, and this file says all that a move can be: a covered migration leaves everything
as it is (`Progress.Covered` lists the three reasons), and any other one emits the statements of
its kind (`Migration.Does` lists the seven kinds of deed, each with what it looked up and why it
was not covered).

* `planStep_cases`: a planned step is one of these.
* `MigrationSet.Reaches`: the steps planned so far, the migrations still to come, and the progress.
* `reaches_of_plan`: every cut through a plan is such a point.  An invariant of plans is
  therefore proved by induction on `Reaches`, one case for a move.
-/
import Tabula.Migration.Plan
import Tabula.Proofs.Fallible
import Tabula.Proofs.Migration.Priority

namespace Tabula

open Tabula.Schema

/-! ## 1. Look-ups that succeed -/

theorem table_eq_ok {set : MigrationSet} {key : String} {t : Table} :
    set.table key = .ok t ↔ set.table? key = some t := by
  unfold MigrationSet.table
  cases set.table? key <;> simp

theorem column_eq_ok {t : Table} {key : String} {c : Column} :
    t.column key = .ok c ↔ t.column? key = some c := by
  unfold Table.column
  cases t.column? key <;> simp

theorem requireColumn_eq_ok {m : Migration} {key : String} :
    m.requireColumn = .ok key ↔ m.column = some key := by
  unfold Migration.requireColumn
  cases m.column <;> simp

/-- The migration names a column of the table, by its name or by its accessor. -/
def Migration.Names (m : Migration) (t : Table) (c : Column) : Prop :=
  ∃ key, m.column = some key ∧ t.column? key = some c

theorem bind_column_eq_ok {m : Migration} {t : Table} {c : Column} :
    (m.requireColumn >>= fun key => t.column key) = .ok c ↔ m.Names t c := by
  simp only [bind_eq_ok, requireColumn_eq_ok, column_eq_ok, Migration.Names]

/-- A column that is looked up is a column of the table. -/
theorem Migration.Names.mem {m : Migration} {t : Table} {c : Column} (h : m.Names t c) :
    c ∈ t.columns := by
  obtain ⟨key, -, hc⟩ := h
  exact List.mem_of_find?_eq_some hc

/-- A column that is named is the only one. -/
theorem Migration.Names.eq {m : Migration} {t : Table} {c d : Column} (hc : m.Names t c)
    (hd : m.Names t d) : c = d := by
  obtain ⟨key, hkey, hc⟩ := hc
  obtain ⟨key', hkey', hd⟩ := hd
  obtain rfl := Option.some.inj (hkey.symm.trans hkey')
  exact Option.some.inj (hc.symm.trans hd)

/-- A table that is looked up is a table of the target. -/
theorem mem_of_table? {set : MigrationSet} {key : String} {t : Table}
    (h : set.table? key = some t) : t ∈ set.target.values := by
  unfold MigrationSet.table? at h
  cases hget : set.target.get? key with
  | some u =>
    rw [hget] at h
    obtain rfl : u = t := by simpa using h
    exact List.mem_map_of_mem (f := Prod.snd) (Dict.mem_of_lookup hget)
  | none =>
    rw [hget] at h
    exact List.mem_of_find?_eq_some (by simpa using h)

/-- The index that a migration asks for is declared, or it is over a single column. -/
theorem index_eq_ok {m : Migration} {t : Table} {i : Index} (h : m.index t = .ok i) :
    i ∈ t.indexes ∨ ∃ c ∈ t.columns,
      i = if m.kind = .addUniqueIndex then t.uniqueIndex c.name else t.columnIndex c.name := by
  obtain ⟨key, -, h⟩ := bind_eq_ok.mp h
  split at h
  case h_1 i' hi =>
    cases h
    exact .inl (List.mem_of_find?_eq_some hi)
  case h_2 =>
    split at h
    case h_1 c hc =>
      cases h
      exact .inr ⟨c, List.mem_of_find?_eq_some hc, rfl⟩
    case h_2 => cases h

/-! ## 2. Moves -/

/-- Why a migration is covered: its table was created, and that made what it asks for. -/
inductive Progress.Covered (p : Progress) (set : MigrationSet) (m : Migration) : Prop
  | column {t : Table} {c : Column} (adds : m.kind.addsColumn = true)
      (table : set.table? m.table = some t) (created : t.name ∈ p.created)
      (names : m.Names t c) (constrained : t.isConstrained c = true)
      (kept : p.isDeferred t.name c.name = false)
  | index {t : Table} {i : Index} (kind : m.kind = .addUniqueIndex)
      (table : set.table? m.table = some t) (created : t.name ∈ p.created)
      (index : m.index t = .ok i) (established : p.established t i = true)
  | keys {t : Table} (kind : m.kind = .addForeignKey)
      (table : set.table? m.table = some t) (created : t.name ∈ p.created)

/-- The statements that a migration is carried out by, and the progress they make. -/
inductive Migration.Does (m : Migration) (set : MigrationSet) (pending : List Migration)
    (p : Progress) : List Ddl → Progress → Prop
  | drop (kind : m.kind = .dropTable) : Does m set pending p [.dropTable m.table] p
  | create {t : Table} {s : Shape} (kind : m.kind = .createTable)
      (table : set.table? m.table = some t) (shape : set.shape t pending = .ok s) :
      Does m set pending p (createStatements s.table)
        ((p.defer t.name s.deferred).markCreated t.name)
  | addColumn {t : Table} {c : Column} (adds : m.kind.addsColumn = true)
      (table : set.table? m.table = some t) (names : m.Names t c)
      (needed : t.name ∈ p.created → t.isConstrained c = true →
        p.isDeferred t.name c.name = true) :
      Does m set pending p (addColumnStatements t c (m.kind = .addUniqueColumn)) p
  | addIndex {t : Table} {i : Index} (kind : m.kind = .addIndex ∨ m.kind = .addUniqueIndex)
      (table : set.table? m.table = some t) (index : m.index t = .ok i)
      (needed : m.kind = .addUniqueIndex → t.name ∈ p.created → p.established t i = false) :
      Does m set pending p [.createIndex t.name i] p
  | makeUnique {t : Table} {c : Column} (kind : m.kind = .makeColumnUnique)
      (table : set.table? m.table = some t) (names : m.Names t c) :
      Does m set pending p [.createIndex t.name (t.uniqueIndex c.name)] p
  | copy {t : Table} (kind : m.kind = .copyTable) (table : set.table? m.table = some t) :
      Does m set pending p [.createTableAs (temporaryName t.name) t.name t.columnNames] p
  | rebuild {t : Table} {s : Shape} {copied : List String} (kind : m.kind.rebuilds = true)
      (table : set.table? m.table = some t) (shape : set.shape t pending = .ok s)
      (copies : m.copiedColumns s = .ok copied)
      (needed : m.kind = .addForeignKey → t.name ∉ p.created) :
      Does m set pending p (rebuildStatements s.table copied)
        ((p.defer t.name s.deferred).markCreated t.name)

/-- Dropping a table is one statement. -/
theorem Migration.Does.of_dropTable {m : Migration} {set : MigrationSet} {pending : List Migration}
    {p p' : Progress} {ds : List Ddl} (h : m.Does set pending p ds p') (hk : m.kind = .dropTable) :
    ds = [.dropTable m.table] ∧ p' = p := by
  cases h with
  | drop => exact ⟨rfl, rfl⟩
  | create kind | makeUnique kind | copy kind =>
    rw [kind] at hk
    cases hk
  | addColumn kind | rebuild kind =>
    rw [hk] at kind
    exact Bool.noConfusion kind
  | addIndex kind =>
    rw [hk] at kind
    exact absurd kind (by decide)

/-- Adding a column is to emit the statements for it. -/
theorem Migration.Does.of_addsColumn {m : Migration} {set : MigrationSet}
    {pending : List Migration} {p p' : Progress} {ds : List Ddl} {t : Table} {c : Column}
    (h : m.Does set pending p ds p') (hk : m.kind.addsColumn = true)
    (ht : set.table? m.table = some t) (hc : m.Names t c) :
    ds = addColumnStatements t c (m.kind = .addUniqueColumn) := by
  cases h with
  | addColumn _ table names =>
    obtain rfl := Option.some.inj (table.symm.trans ht)
    rw [names.eq hc]
  | rebuild kind =>
    rw [Migration.Kind.rebuilds_of_addsColumn hk] at kind
    exact Bool.noConfusion kind
  | addIndex kind =>
    rcases kind with kind | kind <;> rw [kind] at hk <;> exact Bool.noConfusion hk
  | drop kind | create kind | makeUnique kind | copy kind =>
    rw [kind] at hk
    exact Bool.noConfusion hk

/-- **A migration that counts as covered is covered for one of the three reasons.** -/
theorem covered_of_covers {set : MigrationSet} {m : Migration} {p : Progress}
    (h : p.covers set m = .ok true) : p.Covered set m := by
  unfold Progress.covers at h
  split at h
  case h_1 hk | h_2 hk =>
    obtain ⟨t, ht, h⟩ := bind_eq_ok.mp h
    split at h
    case isFalse => simp [pure, Except.pure] at h
    case isTrue hcreated =>
      rw [← bind_assoc] at h
      obtain ⟨c, hc, h⟩ := bind_eq_ok.mp h
      have hb : t.isConstrained c = true ∧ p.isDeferred t.name c.name = false := by
        simpa [pure, Except.pure] using h
      exact .column (by rw [hk]; rfl) (table_eq_ok.mp ht) hcreated (bind_column_eq_ok.mp hc)
        hb.1 hb.2
  case h_3 hk =>
    obtain ⟨t, ht, h⟩ := bind_eq_ok.mp h
    split at h
    case isFalse => simp [pure, Except.pure] at h
    case isTrue hcreated =>
      split at h
      case h_1 i hi =>
        exact .index hk (table_eq_ok.mp ht) hcreated hi (by simpa [pure, Except.pure] using h)
      case h_2 => simp [pure, Except.pure] at h
  case h_4 hk =>
    obtain ⟨t, ht, h⟩ := bind_eq_ok.mp h
    exact .keys hk (table_eq_ok.mp ht) (by simpa [pure, Except.pure] using h)
  case h_5 => simp at h

section Needed

variable {set : MigrationSet} {m : Migration} {p : Progress} {t : Table}

/-- A column that is added is new, or its table was created without it. -/
theorem deferred_of_not_covers {c : Column} (hk : m.kind.addsColumn = true)
    (ht : set.table? m.table = some t) (hc : m.Names t c) (h : p.covers set m = .ok false)
    (hcreated : t.name ∈ p.created) (hcon : t.isConstrained c = true) :
    p.isDeferred t.name c.name = true := by
  obtain ⟨key, hkey, hcol⟩ := hc
  unfold Progress.covers at h
  rcases Migration.Kind.addsColumn_iff.mp hk with hkind | hkind <;>
    simpa [hkind, table_eq_ok.mpr ht, requireColumn_eq_ok.mpr hkey, column_eq_ok.mpr hcol, bind,
      Except.bind, pure, Except.pure, hcreated, hcon] using h

/-- A unique index that is added was not made by CREATE TABLE. -/
theorem established_of_not_covers {i : Index} (hk : m.kind = .addUniqueIndex)
    (ht : set.table? m.table = some t) (hi : m.index t = .ok i)
    (h : p.covers set m = .ok false) (hcreated : t.name ∈ p.created) :
    p.established t i = false := by
  unfold Progress.covers at h
  simpa [hk, table_eq_ok.mpr ht, hi, bind, Except.bind, pure, Except.pure, hcreated] using h

/-- A foreign key is added to a table that was not created before. -/
theorem not_created_of_not_covers (hk : m.kind = .addForeignKey)
    (ht : set.table? m.table = some t) (h : p.covers set m = .ok false) :
    t.name ∉ p.created := by
  unfold Progress.covers at h
  simpa [hk, table_eq_ok.mpr ht, bind, Except.bind, pure, Except.pure] using h

end Needed

/-- **A migration that is carried out does one of the seven deeds.** -/
theorem does_of_deed {set : MigrationSet} {m : Migration} {pending : List Migration}
    {p p' : Progress} {deed : Deed} (hneed : p.covers set m = .ok false)
    (h : m.deed set pending p = .ok (deed, p')) : m.Does set pending p deed.statements p' := by
  unfold Migration.deed at h
  split at h
  case h_1 hk =>
    cases h
    exact .drop hk
  case h_2 hk =>
    obtain ⟨t, ht, h⟩ := bind_eq_ok.mp h
    obtain ⟨s, hs, h⟩ := bind_eq_ok.mp h
    cases h
    exact .create hk (table_eq_ok.mp ht) hs
  case h_3 hk | h_4 hk =>
    obtain ⟨t, ht, h⟩ := bind_eq_ok.mp h
    rw [← bind_assoc] at h
    obtain ⟨c, hc, h⟩ := bind_eq_ok.mp h
    cases h
    have hadds : m.kind.addsColumn = true := by rw [hk]; rfl
    exact .addColumn hadds (table_eq_ok.mp ht) (bind_column_eq_ok.mp hc)
      (deferred_of_not_covers hadds (table_eq_ok.mp ht) (bind_column_eq_ok.mp hc) hneed)
  case h_5 hk | h_6 hk =>
    obtain ⟨t, ht, h⟩ := bind_eq_ok.mp h
    obtain ⟨i, hi, h⟩ := bind_eq_ok.mp h
    cases h
    exact .addIndex (by simp [hk]) (table_eq_ok.mp ht) hi
      fun hu => established_of_not_covers hu (table_eq_ok.mp ht) hi hneed
  case h_7 hk =>
    obtain ⟨t, ht, h⟩ := bind_eq_ok.mp h
    rw [← bind_assoc] at h
    obtain ⟨c, hc, h⟩ := bind_eq_ok.mp h
    cases h
    exact .makeUnique hk (table_eq_ok.mp ht) (bind_column_eq_ok.mp hc)
  case h_8 hk =>
    obtain ⟨t, ht, h⟩ := bind_eq_ok.mp h
    cases h
    exact .copy hk (table_eq_ok.mp ht)
  case h_9 hk | h_10 hk | h_11 hk | h_12 hk =>
    obtain ⟨t, ht, h⟩ := bind_eq_ok.mp h
    obtain ⟨s, hs, h⟩ := bind_eq_ok.mp h
    obtain ⟨d, hd, h⟩ := bind_eq_ok.mp h
    cases h
    obtain ⟨copied, hcopied, hd⟩ := bind_eq_ok.mp hd
    obtain ⟨lost, -, hd⟩ := bind_eq_ok.mp hd
    cases hd
    exact .rebuild (by rw [hk]; rfl) (table_eq_ok.mp ht) hs hcopied
      fun hf => not_created_of_not_covers hf (table_eq_ok.mp ht) hneed

/-- **What a planned step is.** -/
theorem planStep_cases {set : MigrationSet} {m : Migration} {pending : List Migration}
    {p p' : Progress} {step : PlanStep} (h : set.planStep m pending p = .ok (step, p')) :
    (step = ⟨m, .covered⟩ ∧ p' = p ∧ p.Covered set m) ∨
      ∃ deed, step = ⟨m, .carriedOut deed⟩ ∧ m.Does set pending p deed.statements p' := by
  unfold MigrationSet.planStep at h
  obtain ⟨b, hb, h⟩ := bind_eq_ok.mp h
  cases b with
  | true =>
    obtain ⟨rfl, rfl⟩ : ⟨m, .covered⟩ = step ∧ p = p' := by
      simpa [pure, Except.pure] using h
    exact .inl ⟨rfl, rfl, covered_of_covers hb⟩
  | false =>
    obtain ⟨⟨deed, p₁⟩, hdeed, h⟩ := bind_eq_ok.mp h
    obtain ⟨rfl, rfl⟩ : ⟨m, .carriedOut deed⟩ = step ∧ p₁ = p' := by
      simpa [pure, Except.pure] using h
    exact .inr ⟨deed, rfl, does_of_deed hb hdeed⟩

theorem covered_of_planStep {set : MigrationSet} {m : Migration} {pending : List Migration}
    {p p' : Progress} {step : PlanStep} (h : set.planStep m pending p = .ok (step, p'))
    (hcovered : step.isCovered = true) : p.Covered set m := by
  rcases planStep_cases h with ⟨-, -, hm⟩ | ⟨deed, rfl, -⟩
  · exact hm
  · exact absurd hcovered Bool.false_ne_true

theorem does_of_planStep {set : MigrationSet} {m : Migration} {pending : List Migration}
    {p p' : Progress} {step : PlanStep} (h : set.planStep m pending p = .ok (step, p'))
    (hcarried : step.isCovered = false) : m.Does set pending p step.statements p' := by
  rcases planStep_cases h with ⟨rfl, -, -⟩ | ⟨deed, rfl, hdoes⟩
  · exact Bool.noConfusion hcarried
  · exact hdoes

/-! ## 3. Points of a plan -/

/-- The points of a plan for sorted migrations: the steps so far, the migrations that are still to
come, and the progress. -/
inductive MigrationSet.Reaches (set : MigrationSet) (ms : List Migration) :
    List PlanStep → List Migration → Progress → Prop
  | start : Reaches set ms [] ms .start
  | step {before : List PlanStep} {m : Migration} {rest : List Migration} {p p' : Progress}
      {step : PlanStep} (reached : Reaches set ms before (m :: rest) p)
      (planned : set.planStep m rest p = .ok (step, p')) :
      Reaches set ms (before ++ [step]) rest p'

/-- The migration of a step is the one that was planned. -/
theorem migration_of_planStep {set : MigrationSet} {m : Migration} {pending : List Migration}
    {p p' : Progress} {step : PlanStep} (h : set.planStep m pending p = .ok (step, p')) :
    step.migration = m := by
  rcases planStep_cases h with ⟨rfl, -, -⟩ | ⟨deed, rfl, -⟩ <;> rfl

/-- Planned and pending migrations are all there are, in their order. -/
theorem MigrationSet.Reaches.migrations {set : MigrationSet} {ms rest : List Migration}
    {before : List PlanStep} {p : Progress} (h : set.Reaches ms before rest p) :
    ms = before.map PlanStep.migration ++ rest := by
  induction h with
  | start => rfl
  | step _ planned ih => rw [ih, ← migration_of_planStep planned]; simp

theorem planSteps_cons {set : MigrationSet} {m : Migration} {rest : List Migration} {p : Progress}
    {steps : List PlanStep} (h : set.planSteps (m :: rest) p = .ok steps) :
    ∃ step p' after, set.planStep m rest p = .ok (step, p') ∧
      set.planSteps rest p' = .ok after ∧ steps = step :: after := by
  unfold MigrationSet.planSteps at h
  obtain ⟨⟨step, p'⟩, hstep, h⟩ := bind_eq_ok.mp h
  obtain ⟨after, hafter, h⟩ := bind_eq_ok.mp h
  cases h
  exact ⟨step, p', after, hstep, hafter, rfl⟩

/-- What is true of each planned migration is true of all migrations of a plan that succeeds. -/
theorem forall_mem_of_planSteps {set : MigrationSet} {ms : List Migration} {p : Progress}
    {steps : List PlanStep} {P : Migration → Prop}
    (hstep : ∀ {m pending p step p'}, set.planStep m pending p = .ok (step, p') → P m)
    (h : set.planSteps ms p = .ok steps) : ∀ m ∈ ms, P m := by
  induction ms generalizing p steps with
  | nil => simp
  | cons m rest ih =>
    obtain ⟨step, p', after, hplanned, hafter, -⟩ := planSteps_cons h
    exact List.forall_mem_cons.mpr ⟨hstep hplanned, ih hafter⟩

theorem reaches_append {set : MigrationSet} {ms rest : List Migration}
    {before after : List PlanStep} {p : Progress} (middle : List PlanStep)
    (hr : set.Reaches ms before rest p)
    (h : set.planSteps rest p = .ok (middle ++ after)) :
    ∃ rest' p', set.Reaches ms (before ++ middle) rest' p' ∧
      set.planSteps rest' p' = .ok after := by
  induction middle generalizing before rest p with
  | nil => exact ⟨rest, p, by simpa using hr, h⟩
  | cons step middle ih =>
    cases rest with
    | nil => simp [MigrationSet.planSteps] at h
    | cons m rest =>
      obtain ⟨step', p', after', hstep, hafter, heq⟩ := planSteps_cons h
      obtain ⟨rfl, rfl⟩ := List.cons.inj heq
      obtain ⟨rest', p'', hr', h'⟩ := ih (hr.step hstep) hafter
      exact ⟨rest', p'', by simpa using hr', h'⟩

theorem plan_eq_planSteps {set : MigrationSet} {ms : List Migration}
    (hms : set.migrations = .ok ms) :
    set.plan = set.planSteps (Migration.sort ms) .start := by
  rw [MigrationSet.plan, hms]
  rfl

/-- **Every cut through a plan is a point of it.** -/
theorem reaches_of_plan {set : MigrationSet} {ms : List Migration}
    {before after : List PlanStep} (hms : set.migrations = .ok ms)
    (h : set.plan = .ok (before ++ after)) :
    ∃ rest p, set.Reaches (Migration.sort ms) before rest p ∧
      set.planSteps rest p = .ok after := by
  rw [plan_eq_planSteps hms] at h
  simpa using reaches_append before .start h

section Plans

variable {set : MigrationSet} {ms rest : List Migration} {m m' : Migration}
  {before after : List PlanStep} {step : PlanStep} {p : Progress}

/-- A step of a plan, and the point at which it was planned. -/
theorem reaches_of_plan_cons (hms : set.migrations = .ok ms)
    (hplan : set.plan = .ok (before ++ step :: after)) :
    ∃ rest p p', set.Reaches (Migration.sort ms) before (step.migration :: rest) p ∧
      set.planStep step.migration rest p = .ok (step, p') ∧
      set.planSteps rest p' = .ok after := by
  obtain ⟨rest, p, hreaches, hsteps⟩ := reaches_of_plan hms hplan
  cases rest with
  | nil => cases hsteps
  | cons m rest =>
    obtain ⟨step', p', after', hstep, hafter, heq⟩ := planSteps_cons hsteps
    obtain ⟨rfl, rfl⟩ := List.cons.inj heq
    obtain rfl := migration_of_planStep hstep
    exact ⟨rest, p, p', hreaches, hstep, hafter⟩

/-- A step of a plan that is not covered does a deed. -/
theorem does_of_plan {steps : List PlanStep} (hplan : set.plan = .ok steps) (hstep : step ∈ steps)
    (hcarried : step.isCovered = false) :
    ∃ pending p p', step.migration.Does set pending p step.statements p' := by
  obtain ⟨ms, hms, -⟩ := bind_eq_ok.mp hplan
  obtain ⟨before, after, rfl⟩ := List.append_of_mem hstep
  obtain ⟨rest, p, p', -, hplanned, -⟩ := reaches_of_plan_cons hms hplan
  exact ⟨rest, p, p', does_of_planStep hplanned hcarried⟩

/-- A covered step of a plan, and the point at which it was planned. -/
theorem covered_of_plan (hms : set.migrations = .ok ms)
    (hplan : set.plan = .ok (before ++ step :: after)) (hcovered : step.isCovered = true) :
    ∃ rest p, set.Reaches (Migration.sort ms) before (step.migration :: rest) p ∧
      p.Covered set step.migration := by
  obtain ⟨rest, p, p', hreaches, hstep, -⟩ := reaches_of_plan_cons hms hplan
  exact ⟨rest, p, hreaches, covered_of_planStep hstep hcovered⟩

/-- A step whose migration nothing covers is carried out. -/
theorem carried_of_plan {steps : List PlanStep} (hplan : set.plan = .ok steps) (hstep : step ∈ steps)
    (h : ∀ p : Progress, ¬p.Covered set step.migration) : step.isCovered = false := by
  obtain ⟨ms, hms, -⟩ := bind_eq_ok.mp hplan
  obtain ⟨before, after, rfl⟩ := List.append_of_mem hstep
  refine Bool.eq_false_iff.mpr fun hcovered => ?_
  obtain ⟨rest, p, -, hcov⟩ := covered_of_plan hms hplan hcovered
  exact h p hcov

/-- A migration of the set is planned or pending. -/
theorem MigrationSet.Reaches.mem_iff (h : set.Reaches (Migration.sort ms) before rest p) :
    m ∈ ms ↔ m ∈ before.map PlanStep.migration ∨ m ∈ rest := by
  rw [← (Migration.sort_perm ms).mem_iff, h.migrations, List.mem_append]

/-- The migrations that were planned before one have no higher priority. -/
theorem priority_le_of_reaches (h : set.Reaches (Migration.sort ms) before (m :: rest) p) :
    ∀ s ∈ before, s.migration.kind.priority ≤ m.kind.priority := by
  have hasc := Migration.ascending_sort ms
  rw [h.migrations] at hasc
  exact fun s hs => hasc.le_of_append (List.mem_map_of_mem hs)

/-- Those that are planned after it have no lower one. -/
theorem le_priority_of_reaches (h : set.Reaches (Migration.sort ms) before (m :: rest) p) :
    ∀ m' ∈ rest, m.kind.priority ≤ m'.kind.priority := by
  have hasc := Migration.ascending_sort ms
  rw [h.migrations] at hasc
  exact fun m' hm' => hasc.of_append.le (List.mem_cons_of_mem _ hm')

/-- Those of a higher priority are pending. -/
theorem mem_rest_of_priority_lt (h : set.Reaches (Migration.sort ms) before (m :: rest) p)
    (hm : m' ∈ ms) (hlt : m.kind.priority < m'.kind.priority) : m' ∈ rest := by
  rcases h.mem_iff.mp hm with hm | hm
  · obtain ⟨s, hs, rfl⟩ := List.mem_map.mp hm
    exact absurd (priority_le_of_reaches h s hs) (Nat.not_le_of_gt hlt)
  · rcases List.mem_cons.mp hm with rfl | hm
    · exact absurd hlt (Nat.lt_irrefl _)
    · exact hm

/-- Those of a lower priority are planned. -/
theorem mem_before_of_priority_lt (h : set.Reaches (Migration.sort ms) before (m :: rest) p)
    (hm : m' ∈ ms) (hlt : m'.kind.priority < m.kind.priority) :
    ∃ s ∈ before, s.migration = m' := by
  rcases h.mem_iff.mp hm with hm | hm
  · exact List.mem_map.mp hm
  · have hasc := Migration.ascending_sort ms
    rw [h.migrations] at hasc
    exact absurd (hasc.of_append.le hm) (Nat.not_le_of_gt hlt)

end Plans

end Tabula
