/-
# What the steps of a plan make of one table

To a table that stands, a step does one of two things.  Either it makes the table anew, in the shape
that its set has for it at that point (`does_of_remakes`), or it leaves the table as it is and gives
it the indexes that its migration requests (`does_of_not_remakes`).  What is requested is not always
granted, since a migration may be covered.

So the last step that made the table anew decides what stands of it at the end of a plan, together
with what was granted since: `keeps_of_planSteps` is about the steps after it, and
`standsSince_of_plan` about the whole plan.  For this the table must be known by its name
(`MigrationSet.StandsAlone`).
-/
import Tabula.Proofs.Migration.Standing

namespace Tabula

open Tabula.Schema

/-! ## 1. The migrations of a table -/

/-- The indexes that a migration creates on a table that it does not make anew. -/
inductive Migration.Requests (m : Migration) (t : Table) : Index → Prop
  | unique {c : Column} (adds : m.kind.addsColumn = true) (names : m.Names t c)
      (unique : c.unique = true ∨ m.kind = .addUniqueColumn) : Requests m t (t.uniqueIndex c.name)
  | column {c : Column} (adds : m.kind.addsColumn = true) (names : m.Names t c)
      (indexed : c.indexed = true) : Requests m t (t.columnIndex c.name)
  | index {i : Index} (kind : m.kind = .addIndex ∨ m.kind = .addUniqueIndex)
      (index : m.index t = .ok i) : Requests m t i
  | makeUnique {c : Column} (kind : m.kind = .makeColumnUnique) (names : m.Names t c) :
      Requests m t (t.uniqueIndex c.name)

/-- Indexes are requested where columns are added, and after that. -/
theorem Migration.Requests.kind {m : Migration} {t : Table} {i : Index} (h : m.Requests t i) :
    m.kind.addsColumn = true ∨ m.kind.priority = 30 := by
  cases h with
  | unique adds | column adds => exact .inl adds
  | index kind => rcases kind with kind | kind <;> exact .inr (by rw [kind]; rfl)
  | makeUnique kind => exact .inr (by rw [kind]; rfl)

theorem Migration.Requests.le_priority {m : Migration} {t : Table} {i : Index}
    (h : m.Requests t i) : 10 ≤ m.kind.priority := by
  rcases h.kind with hk | hk
  · rw [Migration.Kind.priority_of_addsColumn hk]
  · rw [hk]
    decide

section Requests

variable {m : Migration} {t : Table} {c : Column} {i j : Index}

/-- What an ADD COLUMN requests. -/
theorem Migration.requests_iff_of_addsColumn (hadds : m.kind.addsColumn = true)
    (hc : m.Names t c) :
    m.Requests t i ↔ i ∈ t.addedIndexes c (m.kind = .addUniqueColumn) := by
  rw [Table.mem_addedIndexes, decide_eq_true_eq]
  constructor
  · rintro (⟨-, hd, hu⟩ | ⟨-, hd, hi⟩ | ⟨kind, -⟩ | ⟨kind, -⟩)
    · exact .inl ⟨hd.eq hc ▸ hu, by rw [hd.eq hc]⟩
    · exact .inr ⟨hd.eq hc ▸ hi, by rw [hd.eq hc]⟩
    · rcases kind with kind | kind <;> rw [kind] at hadds <;> exact Bool.noConfusion hadds
    · rw [kind] at hadds
      exact Bool.noConfusion hadds
  · rintro (⟨hu, rfl⟩ | ⟨hi, rfl⟩)
    · exact .unique hadds hc hu
    · exact .column hadds hc hi

/-- What an ADD INDEX requests. -/
theorem Migration.requests_iff_of_index (hk : m.kind = .addIndex ∨ m.kind = .addUniqueIndex)
    (hi : m.index t = .ok i) : m.Requests t j ↔ j = i := by
  constructor
  · rintro (⟨adds, -⟩ | ⟨adds, -⟩ | ⟨-, hj⟩ | ⟨kind, -⟩)
    · rcases hk with hk | hk <;> rw [hk] at adds <;> exact Bool.noConfusion adds
    · rcases hk with hk | hk <;> rw [hk] at adds <;> exact Bool.noConfusion adds
    · exact Except.ok.inj (hj.symm.trans hi)
    · rcases hk with hk | hk <;> rw [hk] at kind <;> exact Migration.Kind.noConfusion kind
  · rintro rfl
    exact .index hk hi

/-- What a MAKE COLUMN UNIQUE requests. -/
theorem Migration.requests_iff_of_makeUnique (hk : m.kind = .makeColumnUnique)
    (hc : m.Names t c) : m.Requests t j ↔ j = t.uniqueIndex c.name := by
  constructor
  · rintro (⟨adds, -⟩ | ⟨adds, -⟩ | ⟨kind, -⟩ | ⟨-, hd⟩)
    · rw [hk] at adds
      exact Bool.noConfusion adds
    · rw [hk] at adds
      exact Bool.noConfusion adds
    · rw [hk] at kind
      exact absurd kind (by decide)
    · rw [hd.eq hc]
  · rintro rfl
    exact .makeUnique hk hc

end Requests

namespace MigrationSet

/-- The migration is to make a table anew: it creates or rebuilds it. -/
def remakes (set : MigrationSet) (t : Table) (m : Migration) : Bool :=
  (decide (m.kind = .createTable) || m.kind.rebuilds) && set.concerns t m

/-- A step made a table anew. -/
def Remade (set : MigrationSet) (t : Table) (s : PlanStep) : Prop :=
  s.isCovered = false ∧ set.remakes t s.migration = true

/-- A step gave a table an index that its migration requests. -/
def Grants (set : MigrationSet) (t : Table) (s : PlanStep) (i : Index) : Prop :=
  s.isCovered = false ∧ set.concerns t s.migration = true ∧ s.migration.Requests t i

/-- An ADD COLUMN names a column that carries no constraint: a table is made without it. -/
def Postpones (set : MigrationSet) (t : Table) (ms : List Migration) (column : String) : Prop :=
  ∃ m ∈ ms, ∃ c, (m.kind.addsColumn = true ∧ set.concerns t m = true ∧ m.Names t c) ∧
    t.isConstrained c = false ∧ c.name = column

/-- **A table of the target that migrations know by its name**: no other table has it, it is not
dropped, and no other table is copied or rebuilt by way of a temporary table of this name. -/
structure StandsAlone (set : MigrationSet) (t : Table) (ms : List Migration) : Prop where
  only : ∀ u ∈ set.target.values, u.name = t.name → u = t
  notDropped : ∀ m ∈ ms, m.kind = .dropTable → m.table ≠ t.name
  notTemporary : ∀ m ∈ ms, m.kind.rebuilds = true ∨ m.kind = .copyTable →
    ∀ u, set.table? m.table = some u → t.name ≠ temporaryName u.name

variable {set : MigrationSet} {t : Table} {m : Migration} {ms ms' rest : List Migration}
  {i : Index} {ds : List Ddl}

theorem StandsAlone.of_subset (h : set.StandsAlone t ms) (hs : ∀ m ∈ ms', m ∈ ms) :
    set.StandsAlone t ms' where
  only := h.only
  notDropped m hm := h.notDropped m (hs m hm)
  notTemporary m hm := h.notTemporary m (hs m hm)

theorem StandsAlone.tail (h : set.StandsAlone t (m :: rest)) : set.StandsAlone t rest :=
  h.of_subset fun _ => List.mem_cons_of_mem m

/-- A migration about the table looks it up. -/
theorem StandsAlone.eq_of_concerns {u : Table} (h : set.StandsAlone t ms)
    (hm : set.concerns t m = true) (hu : set.table? m.table = some u) : u = t :=
  h.only u (mem_of_table? hu) (name_of_concerns hm hu)

theorem IsWellNamed.standsAlone (hw : set.IsWellNamed) (ht : t ∈ set.target.values)
    (hdrop : ∀ m ∈ ms, m.kind = .dropTable → m.table ≠ t.name) : set.StandsAlone t ms where
  only _ hu hname := List.inj_on_of_nodup_map hw.tables hu ht hname
  notDropped := hdrop
  notTemporary _ _ _ _ hu := hw.temporary t ht _ (mem_of_table? hu)

/-- The columns that a shape leaves to later migrations are those that these postpone. -/
theorem mem_deferred_of_shape {s : Shape} {x : String} (h : set.shape t ms = .ok s) :
    x ∈ s.deferred ↔ set.Postpones t ms x := by
  obtain ⟨cs, hcs, h⟩ := bind_eq_ok.mp h
  cases h
  simp only [List.mem_map, List.mem_filter, mem_addedColumns_iff hcs, Bool.not_eq_true']
  constructor
  · rintro ⟨c, ⟨⟨m, hm, hc⟩, hcon⟩, rfl⟩
    exact ⟨m, hm, c, hc, hcon, rfl⟩
  · rintro ⟨m, hm, c, hc, hcon, rfl⟩
    exact ⟨c, ⟨⟨m, hm, hc⟩, hcon⟩, rfl⟩

end MigrationSet

/-! ## 2. Single steps -/

/-- Two points of a plan agree about a table. -/
structure Progress.Agrees (p q : Progress) (table : String) : Prop where
  created : table ∈ q.created ↔ table ∈ p.created
  deferred : ∀ column, q.isDeferred table column = p.isDeferred table column

theorem Progress.Agrees.refl (p : Progress) (table : String) : p.Agrees p table :=
  ⟨Iff.rfl, fun _ => rfl⟩

theorem Progress.Agrees.trans {p q r : Progress} {table : String} (h : p.Agrees q table)
    (h' : q.Agrees r table) : p.Agrees r table :=
  ⟨h'.created.trans h.created, fun column => (h'.deferred column).trans (h.deferred column)⟩

/-- Progress is made for one table. -/
theorem Progress.agrees_of_ne {table other : String} (p : Progress) (columns : List String)
    (h : table ≠ other) : p.Agrees ((p.defer other columns).markCreated other) table where
  created := by simp [h]
  deferred column := by rw [isDeferred_markCreated, isDeferred_defer_of_ne h]

namespace MigrationSet

variable {set : MigrationSet} {t : Table} {m : Migration} {ms rest : List Migration}
  {p p' : Progress} {i : Index} {ds : List Ddl} {step : PlanStep} {before steps : List PlanStep}

/-- What makes a table anew is a creation, a rebuild before columns are added, or a new foreign
key. -/
theorem kind_of_remakes (h : set.remakes t m = true) :
    m.kind.priority < 10 ∨ m.kind = .addForeignKey := by
  simp only [remakes, Bool.and_eq_true, Bool.or_eq_true, decide_eq_true_eq] at h
  rcases h.1 with hk | hk
  · rw [hk]
    decide
  · exact or_iff_not_imp_right.mpr (Migration.Kind.priority_lt_of_rebuilds hk)

/-- No migration that is to make a table anew is covered, but for a new foreign key. -/
theorem not_covered_of_remakes (hm : set.remakes t m = true) (hk : m.kind ≠ .addForeignKey) :
    ¬p.Covered set m := by
  intro h
  cases h with
  | column adds =>
    rcases kind_of_remakes hm with hearly | hforeign
    · rw [Migration.Kind.priority_of_addsColumn adds] at hearly
      exact absurd hearly (by decide)
    · exact hk hforeign
  | index kind => simp [remakes, kind, Migration.Kind.rebuilds] at hm
  | keys kind => exact hk kind

/-- **A deed that makes a table anew** gives it the shape of this point, whatever stood before. -/
theorem does_of_remakes (ha : set.StandsAlone t ms) (hm : set.remakes t m = true)
    (h : m.Does set rest p ds p') :
    ∃ s, set.shape t rest = .ok s ∧
      p' = (p.defer t.name s.deferred).markCreated t.name ∧
      (m.kind = .addForeignKey → t.name ∉ p.created) ∧
      ∀ st?, ds.foldl (Standing.next t.name) st? =
        some ⟨s.table, [], s.table.createdIndexes m.kind.rebuilds⟩ := by
  simp only [remakes, Bool.and_eq_true, Bool.or_eq_true, decide_eq_true_eq] at hm
  obtain ⟨hk, hc⟩ := hm
  cases h with
  | @create u s kind table shape =>
    obtain rfl := ha.eq_of_concerns hc table
    refine ⟨s, shape, rfl, by simp [kind], fun st? => ?_⟩
    rw [Standing.foldl_next_createStatements (name_of_shape shape), kind]
    rfl
  | @rebuild u s copied kind table shape _ needed =>
    obtain rfl := ha.eq_of_concerns hc table
    refine ⟨s, shape, rfl, needed, fun st? => ?_⟩
    rw [Standing.foldl_next_rebuildStatements (name_of_shape shape), kind]
  | addColumn adds =>
    have hrebuilds := Migration.Kind.rebuilds_of_addsColumn adds
    rcases hk with hk | hk
    · rw [hk] at adds
      exact Bool.noConfusion adds
    · rw [hrebuilds] at hk
      exact Bool.noConfusion hk
  | addIndex kind =>
    rcases kind with kind | kind <;> simp [kind, Migration.Kind.rebuilds] at hk
  | drop kind | makeUnique kind | copy kind => simp [kind, Migration.Kind.rebuilds] at hk

/-- Statements add to a table what a migration requests for it, and change nothing else. -/
def Furnish (set : MigrationSet) (t : Table) (m : Migration) (ds : List Ddl) : Prop :=
  ∃ added is, (∀ st : Standing, ds.foldl (Standing.next t.name) (some st) =
      some ⟨st.table, st.added ++ added, st.indexes ++ is⟩) ∧
    ∀ i, i ∈ is ↔ set.concerns t m = true ∧ m.Requests t i

/-- Statements that do nothing to the table do, if nothing is requested for it. -/
theorem furnish_of_untouched
    (h : ∀ st : Standing, ds.foldl (Standing.next t.name) (some st) = some st)
    (hno : ∀ i, set.concerns t m = true → ¬m.Requests t i) : set.Furnish t m ds := by
  refine ⟨[], [], fun st => ?_, fun i => ?_⟩
  · rw [h]
    simp
  · simpa using hno i

/-- So does the statement that creates the requested index. -/
theorem furnish_createIndex (hc : set.concerns t m = true) (h : ∀ j, m.Requests t j ↔ j = i) :
    set.Furnish t m [.createIndex t.name i] := by
  refine ⟨[], [i], fun st => ?_, fun j => by simp [hc, h]⟩
  rw [List.append_nil]
  exact Standing.foldl_next_createIndexes [i]

/-- Statements about another table do. -/
theorem furnish_of_ne {u : Table} (hu : set.table? m.table = some u) (hne : u.name ≠ t.name)
    (h : ∀ d ∈ ds, t.name ∉ d.tables) : set.Furnish t m ds := by
  refine furnish_of_untouched (fun st => Standing.foldl_next_of_untouched h) fun i hc => ?_
  exact absurd hc (by simp [concerns, hu, hne])

/-- Statements about the one table that a migration looks up do, if they do when it is this one. -/
theorem furnish_of_table? {u : Table} (ha : set.StandsAlone t ms)
    (hu : set.table? m.table = some u) (htables : ∀ d ∈ ds, d.tables = [u.name])
    (h : u = t → set.concerns t m = true → set.Furnish t m ds) : set.Furnish t m ds := by
  by_cases hname : u.name = t.name
  · have hc := concerns_of_table? hu hname
    exact h (ha.eq_of_concerns hc hu) hc
  · refine furnish_of_ne hu hname fun d hd => ?_
    rw [htables d hd]
    simpa using Ne.symm hname

/-- **A deed that does not make a table anew** gives it the indexes that its migration requests. -/
theorem does_of_not_remakes (ha : set.StandsAlone t (m :: rest)) (hm : set.remakes t m = false)
    (h : m.Does set rest p ds p') : p.Agrees p' t.name ∧ set.Furnish t m ds := by
  have hmem : m ∈ m :: rest := List.mem_cons_self
  -- A migration that creates or rebuilds a table is about another one.
  have hne : (m.kind = .createTable ∨ m.kind.rebuilds = true) → ∀ {u : Table},
      set.table? m.table = some u → u.name ≠ t.name := by
    intro hk u hu hname
    have hyes : set.remakes t m = true := by simp [remakes, concerns_of_table? hu hname, hk]
    rw [hyes] at hm
    exact Bool.noConfusion hm
  have hidle : m.kind.addsColumn = false → m.kind.priority ≠ 30 →
      ∀ i, set.concerns t m = true → ¬m.Requests t i := by
    intro hadds hprio i _ hi
    rcases hi.kind with hk | hk
    · rw [hadds] at hk
      exact Bool.noConfusion hk
    · exact hprio hk
  cases h with
  | drop kind =>
    refine ⟨.refl p _, furnish_of_untouched (fun st => ?_)
      (hidle (by rw [kind]; rfl) (by rw [kind]; decide))⟩
    simp [Standing.next, (ha.notDropped m hmem kind).symm]
  | @create u s kind table shape =>
    have hne := hne (.inl kind) table
    refine ⟨p.agrees_of_ne _ hne.symm, furnish_of_ne table hne fun d hd => ?_⟩
    rw [tables_of_mem_createStatements hd, name_of_shape shape]
    simpa using hne.symm
  | @addColumn u c adds table names =>
    refine ⟨.refl p _, furnish_of_table? ha table
      (fun d hd => tables_of_mem_addColumnStatements hd) ?_⟩
    rintro rfl hc
    exact ⟨_, _, fun st => st.foldl_next_addColumnStatements u c _, fun i => by
      simp [hc, Migration.requests_iff_of_addsColumn adds names]⟩
  | @addIndex u i kind table index =>
    refine ⟨.refl p _, furnish_of_table? ha table (by simp [Ddl.tables]) ?_⟩
    rintro rfl hc
    exact furnish_createIndex hc fun j => Migration.requests_iff_of_index kind index
  | @makeUnique u c kind table names =>
    refine ⟨.refl p _, furnish_of_table? ha table (by simp [Ddl.tables]) ?_⟩
    rintro rfl hc
    exact furnish_createIndex hc fun j => Migration.requests_iff_of_makeUnique kind names
  | @copy u kind table =>
    refine ⟨.refl p _, furnish_of_untouched (fun st => ?_)
      (hidle (by rw [kind]; rfl) (by rw [kind]; decide))⟩
    simp [Standing.next, ha.notTemporary m hmem (.inr kind) u table]
  | @rebuild u s copied kind table shape =>
    have hne := hne (.inr kind) table
    refine ⟨p.agrees_of_ne _ hne.symm, furnish_of_ne table hne fun d hd hx => ?_⟩
    rcases tables_of_mem_rebuildStatements hd _ hx with hx | hx
    · exact hne (hx.trans (name_of_shape shape)).symm
    · rw [name_of_shape shape] at hx
      exact ha.notTemporary m hmem (.inl kind) u table hx

/-! ## 3. Runs of steps -/

/-- Steps are planned for the migrations to come, in their order. -/
theorem migrations_of_planSteps (h : set.planSteps rest p = .ok steps) :
    steps.map PlanStep.migration = rest := by
  induction rest generalizing p steps with
  | nil =>
    cases h
    rfl
  | cons m rest ih =>
    obtain ⟨step, p', after, hstep, hafter, rfl⟩ := planSteps_cons h
    rw [List.map_cons, migration_of_planStep hstep, ih hafter]

/-- Every migration of a set has its step in the plan. -/
theorem mem_iff_of_plan (hms : set.migrations = .ok ms) (hplan : set.plan = .ok steps) :
    m ∈ ms ↔ ∃ step ∈ steps, step.migration = m := by
  rw [plan_eq_planSteps hms] at hplan
  rw [← (Migration.sort_perm ms).mem_iff, ← migrations_of_planSteps hplan, List.mem_map]

/-- A deed notes a table as created exactly if it makes it anew. -/
theorem mem_created_iff_of_does (h : m.Does set rest p ds p') :
    t.name ∈ p'.created ↔ t.name ∈ p.created ∨ set.remakes t m = true := by
  cases h with
  | @create u _ kind table =>
    simp [remakes, concerns, kind, table, or_comm, eq_comm (a := u.name)]
  | @rebuild u _ _ kind table =>
    simp [remakes, concerns, kind, table, or_comm, eq_comm (a := u.name)]
  | addColumn adds =>
    have hk : m.kind ≠ .createTable := fun hk => by simp [hk, Migration.Kind.addsColumn] at adds
    simp [remakes, hk, Migration.Kind.rebuilds_of_addsColumn adds]
  | addIndex kind => rcases kind with kind | kind <;> simp [remakes, kind, Migration.Kind.rebuilds]
  | drop kind | makeUnique kind | copy kind => simp [remakes, kind, Migration.Kind.rebuilds]

/-- **The tables that a plan notes as created are those that it made anew.** -/
theorem mem_created_iff_of_reaches (h : set.Reaches ms before rest p) :
    t.name ∈ p.created ↔ ∃ s ∈ before, set.Remade t s := by
  induction h with
  | start => simp [Progress.start]
  | @step before m rest p p' step _ planned ih =>
    simp only [List.mem_append, List.mem_singleton, or_and_right, exists_or, exists_eq_left, ← ih]
    rcases planStep_cases planned with ⟨rfl, rfl, -⟩ | ⟨deed, rfl, hdoes⟩
    · simp [Remade, PlanStep.isCovered]
    · simp [Remade, PlanStep.isCovered, mem_created_iff_of_does hdoes]

/-- **While no step makes a table anew, it stays as it was made, and gets the indexes that are
granted to it.**  A step that is covered is so at a point that agrees with the first one. -/
theorem keeps_of_planSteps (ha : set.StandsAlone t rest) (h : set.planSteps rest p = .ok steps)
    (hno : ∀ s ∈ steps, ¬set.Remade t s) (st : Standing) :
    (∃ st', (steps.flatMap PlanStep.statements).foldl (Standing.next t.name) (some st) = some st' ∧
      st'.table = st.table ∧
      ∀ i, i ∈ st'.indexes ↔ i ∈ st.indexes ∨ ∃ s ∈ steps, set.Grants t s i) ∧
    ∀ s ∈ steps, s.isCovered = true → ∃ q, p.Agrees q t.name ∧ q.Covered set s.migration := by
  induction rest generalizing p steps st with
  | nil =>
    cases h
    exact ⟨⟨st, rfl, rfl, by simp⟩, by simp⟩
  | cons m rest ih =>
    obtain ⟨step, p', after, hstep, hafter, rfl⟩ := planSteps_cons h
    rw [List.forall_mem_cons] at hno
    rw [List.forall_mem_cons]
    simp only [List.flatMap_cons, List.foldl_append, List.exists_mem_cons_iff]
    rcases planStep_cases hstep with ⟨rfl, rfl, hcovered⟩ | ⟨deed, rfl, hdoes⟩
    · obtain ⟨⟨st', hst', htable, hindexes⟩, hrest⟩ := ih ha.tail hafter hno.2 st
      refine ⟨⟨st', hst', htable, fun i => ?_⟩, fun _ => ⟨p', .refl p' _, hcovered⟩, hrest⟩
      simp [hindexes, Grants, PlanStep.isCovered]
    · have hm : set.remakes t m = false := by simpa [Remade, PlanStep.isCovered] using hno.1
      obtain ⟨hagrees, added, is, hfold, his⟩ := does_of_not_remakes ha hm hdoes
      obtain ⟨⟨st', hst', htable, hindexes⟩, hrest⟩ :=
        ih ha.tail hafter hno.2 ⟨st.table, st.added ++ added, st.indexes ++ is⟩
      -- The rest of the steps starts from what this one left.
      refine ⟨⟨st', ?_, htable, fun i => ?_⟩, fun hcovered => ?_, fun s hs hcovered => ?_⟩
      · rw [← hst', ← hfold]
        rfl
      · simp [hindexes, his, Grants, PlanStep.isCovered, or_assoc]
      · exact absurd hcovered Bool.false_ne_true
      · obtain ⟨q, hq, hcov⟩ := hrest s hs hcovered
        exact ⟨q, hagrees.trans hq, hcov⟩

/-- If there is one, there is a last one. -/
theorem exists_last {α : Type} {P : α → Prop} {as : List α} (h : ∃ a ∈ as, P a) :
    ∃ before a after, as = before ++ a :: after ∧ P a ∧ ∀ b ∈ after, ¬P b := by
  induction as with
  | nil => simp at h
  | cons a as ih =>
    by_cases hlater : ∃ b ∈ as, P b
    · obtain ⟨before, b, after, rfl, hb, hafter⟩ := ih hlater
      exact ⟨a :: before, b, after, rfl, hb, hafter⟩
    · refine ⟨[], a, as, rfl, ?_, fun b hb hP => hlater ⟨b, hb, hP⟩⟩
      exact ((List.exists_mem_cons_iff ..).mp h).resolve_right hlater

/-- **What stands of a table since a step made it anew**, in the shape that it had with some
migrations to come. -/
structure StandsSince (set : MigrationSet) (t : Table) (step : PlanStep) (after : List PlanStep)
    (s : Shape) (st : Standing) : Prop where
  table : st.table = s.table
  indexes : ∀ i, i ∈ st.indexes ↔
    i ∈ s.table.createdIndexes step.migration.kind.rebuilds ∨ ∃ y ∈ after, set.Grants t y i
  covered : ∀ y ∈ after, y.isCovered = true → ∃ q : Progress,
    (∀ x, q.isDeferred t.name x = s.deferred.contains x) ∧ q.Covered set y.migration

/-- **The last step that made a table anew decides how it stands in the end**, whatever stood of it
at first. -/
theorem standsSince_of_plan {after : List PlanStep} (ha : set.StandsAlone t ms)
    (hms : set.migrations = .ok ms) (hplan : set.plan = .ok (before ++ step :: after))
    (hstep : set.Remade t step) (hlast : ∀ y ∈ after, ¬set.Remade t y) :
    ∃ rest p s, set.Reaches (Migration.sort ms) before (step.migration :: rest) p ∧
      after.map PlanStep.migration = rest ∧ set.shape t rest = .ok s ∧
      (step.migration.kind = .addForeignKey → t.name ∉ p.created) ∧
      ∀ st?, ∃ st, ((before ++ step :: after).flatMap PlanStep.statements).foldl
          (Standing.next t.name) st? = some st ∧ set.StandsSince t step after s st := by
  obtain ⟨rest, p, p', hreaches, hplanned, hafter⟩ := reaches_of_plan_cons hms hplan
  have ha' : set.StandsAlone t rest := ha.of_subset fun m hm =>
    hreaches.mem_iff.mpr (.inr (List.mem_cons_of_mem _ hm))
  obtain ⟨s, hs, rfl, hneeded, hfold⟩ :=
    does_of_remakes ha hstep.2 (does_of_planStep hplanned hstep.1)
  refine ⟨rest, p, s, hreaches, migrations_of_planSteps hafter, hs, hneeded, fun st? => ?_⟩
  obtain ⟨⟨st, hst, htable, hindexes⟩, hcovered⟩ := keeps_of_planSteps ha' hafter hlast
    ⟨s.table, [], s.table.createdIndexes step.migration.kind.rebuilds⟩
  refine ⟨st, ?_, htable, hindexes, fun y hy hcov => ?_⟩
  · rw [List.flatMap_append, List.flatMap_cons, List.foldl_append, List.foldl_append, hfold, hst]
  · obtain ⟨q, hq, hcov⟩ := hcovered y hy hcov
    refine ⟨q, fun x => ?_, hcov⟩
    rw [hq.deferred, Progress.isDeferred_markCreated, Progress.isDeferred_defer_self]

/-- A step of a plan is carried out if it is to make a table anew, unless for a foreign key. -/
theorem remade_of_mem (hplan : set.plan = .ok steps) (hmem : step ∈ steps)
    (hstep : set.remakes t step.migration = true) (hk : step.migration.kind ≠ .addForeignKey) :
    set.Remade t step :=
  ⟨carried_of_plan hplan hmem fun _ => not_covered_of_remakes hstep hk, hstep⟩

/-- A covered migration requests an index over columns that its table was made with. -/
theorem kept_of_requests (ha : set.StandsAlone t ms) (hcovered : p.Covered set m)
    (hc : set.concerns t m = true) (hi : m.Requests t i) :
    ∀ x ∈ i.columns, p.isDeferred t.name x.1 = false := by
  cases hcovered with
  | @column u c adds table created names constrained kept =>
    obtain rfl := ha.eq_of_concerns hc table
    rw [Migration.requests_iff_of_addsColumn adds names, Table.mem_addedIndexes] at hi
    rcases hi with ⟨-, rfl⟩ | ⟨-, rfl⟩ <;>
      simpa [Table.uniqueIndex, Table.columnIndex, Index.single] using kept
  | @index u j kind table created index established =>
    obtain rfl := ha.eq_of_concerns hc table
    obtain rfl := (Migration.requests_iff_of_index (.inr kind) index).mp hi
    exact Progress.kept_of_established established
  | keys kind =>
    rcases hi.kind with hk | hk <;> rw [kind] at hk
    · exact absurd hk Bool.false_ne_true
    · exact absurd hk (by decide)

end MigrationSet
end Tabula
