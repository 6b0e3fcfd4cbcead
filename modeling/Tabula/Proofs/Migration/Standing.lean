/-
# What stands of a table

`Standing.ofStatements` reads a list of statements for one table: its last CREATE TABLE, the columns
that were added since, and the indexes that were created since.  This file follows a standing
through a plan.  A table that the plan created stands in the shape of its last creation, and has
the indexes that this creation made (`Table.createdIndexes`); while columns are added, the only
other indexes are over columns that were added on their own.

`MigrationSet.Stands` is this invariant, and `standsAt_of_reaches` that it holds at every point of a
plan, up to where tables are copied or dropped.
-/
import Tabula.Proofs.Migration.Catalog

namespace Tabula

open Tabula.Schema

/-! ## 1. Reading statements -/

/-- What the statements since its last CREATE TABLE made of a table. -/
structure Standing where
  /-- The table of that CREATE TABLE. -/
  table : Table
  /-- The columns that were added since. -/
  added : List Column
  /-- The indexes that were created since. -/
  indexes : List Index

namespace Standing

/-- The table has a column. -/
def HasColumn (st : Standing) (c : Column) : Prop := c ∈ st.table.columns ∨ c ∈ st.added

/-- Columns are unique together: by a UNIQUE in the CREATE TABLE, or by an index over them. -/
def IsUnique (st : Standing) (columns : List String) : Prop :=
  (∃ c ∈ st.table.columns, c.unique = true ∧ columns = [c.name]) ∨
    ∃ i ∈ st.indexes, i.unique = true ∧ i.columns.map (·.1) = columns

/-- What a statement makes of what stands of the table of a name. -/
def next (name : String) (st : Option Standing) : Ddl → Option Standing
  | .createTable t => if name = t.name then some ⟨t, [], []⟩ else st
  | .createTableAs table _ _ => if name = table then none else st
  | .copyRows _ _ _ => st
  | .dropTable table => if name = table then none else st
  | .renameTable old new => if name = old ∨ name = new then none else st
  | .addColumn table c =>
    if name = table then st.map fun st => { st with added := st.added ++ [c] } else st
  | .createIndex table i =>
    if name = table then st.map fun st => { st with indexes := st.indexes ++ [i] } else st

/-- What stands of the table of a name after some statements; `none` if these do not create it. -/
def ofStatements (name : String) (ds : List Ddl) : Option Standing := ds.foldl (next name) none

variable {name : String} {st : Standing} {st? : Option Standing} {ds : List Ddl} {t : Table}

/-- A statement about other tables changes nothing. -/
theorem next_of_notMem {d : Ddl} (h : name ∉ d.tables) : next name st? d = st? := by
  cases d with
  | copyRows => rfl
  | renameTable old new =>
    rw [Ddl.tables, List.mem_cons, List.mem_singleton] at h
    exact if_neg h
  | createTable | createTableAs | dropTable | addColumn | createIndex =>
    exact if_neg (List.ne_of_not_mem_cons h)

theorem foldl_next_of_untouched (h : ∀ d ∈ ds, name ∉ d.tables) :
    ds.foldl (next name) st? = st? := by
  induction ds generalizing st? with
  | nil => rfl
  | cons d ds ih =>
    rw [List.foldl_cons, next_of_notMem (h d List.mem_cons_self)]
    exact ih fun e he => h e (List.mem_cons_of_mem _ he)

theorem foldl_next_createIndexes (is : List Index) :
    (is.map (Ddl.createIndex name)).foldl (next name) (some st) =
      some { st with indexes := st.indexes ++ is } := by
  induction is generalizing st with
  | nil => simp
  | cons i is ih =>
    have hi : next name (some st) (.createIndex name i) =
        some { st with indexes := st.indexes ++ [i] } := by
      simp [next]
    rw [List.map_cons, List.foldl_cons, hi, ih]
    simp

end Standing

/-- The indexes that come with a table when it is rebuilt, or else when it is created. -/
def Schema.Table.createdIndexes (t : Table) (rebuilt : Bool) : List Index :=
  if rebuilt then t.allIndexes else t.indexes.filter (·.unique)

/-- The unique ones among them are the declared ones. -/
theorem Schema.Table.mem_createdIndexes_iff {t : Table} {i : Index} (rebuilt : Bool)
    (hu : i.unique = true) : i ∈ t.createdIndexes rebuilt ↔ i ∈ t.indexes := by
  cases rebuilt with
  | false => simp [createdIndexes, hu]
  | true =>
    refine ⟨fun hi => ?_, mem_allIndexes_of_mem⟩
    rcases mem_allIndexes_cases hi with hi | ⟨c, -, -, rfl⟩
    · exact hi
    · exact absurd hu Bool.false_ne_true

/-- The indexes that come with a column when it is added. -/
def Schema.Table.addedIndexes (t : Table) (c : Column) (unique : Bool) : List Index :=
  (if c.unique || unique then [t.uniqueIndex c.name] else []) ++
    (if c.indexed then [t.columnIndex c.name] else [])

theorem Schema.Table.mem_addedIndexes {t : Table} {c : Column} {unique : Bool} {i : Index} :
    i ∈ t.addedIndexes c unique ↔
      (c.unique = true ∨ unique = true) ∧ i = t.uniqueIndex c.name ∨
        c.indexed = true ∧ i = t.columnIndex c.name := by
  simp [addedIndexes]

theorem addColumnStatements_eq (t : Table) (c : Column) (unique : Bool) :
    addColumnStatements t c unique =
      .addColumn t.name c :: (t.addedIndexes c unique).map (Ddl.createIndex t.name) := by
  unfold addColumnStatements Table.addedIndexes
  split <;> split <;> rfl

namespace Standing

variable {name : String} {st : Standing} {st? : Option Standing} {t : Table}

theorem foldl_next_createStatements (hname : t.name = name) :
    (createStatements t).foldl (next name) st? = some ⟨t, [], t.createdIndexes false⟩ := by
  subst hname
  have hcreate : next t.name st? (.createTable t) = some ⟨t, [], []⟩ := by simp [next]
  rw [createStatements, List.foldl_cons, hcreate, foldl_next_createIndexes]
  rfl

theorem foldl_next_rebuildStatements {copied : List String} (hname : t.name = name) :
    (rebuildStatements t copied).foldl (next name) st? =
      some ⟨t, [], t.createdIndexes true⟩ := by
  subst hname
  have hcreate : next t.name none (.createTable t) = some ⟨t, [], []⟩ := by simp [next]
  have hcopy : (if copied = [] then [] else [.copyRows t.name (temporaryName t.name) copied]).foldl
      (next t.name) (some ⟨t, [], []⟩) = some ⟨t, [], []⟩ := by
    split <;> rfl
  have hdrop : next t.name (some ⟨t, [], []⟩) (.dropTable (temporaryName t.name)) =
      some ⟨t, [], []⟩ := by
    simp [next, (temporaryName_ne t.name).symm]
  have hrename : next t.name st? (.renameTable t.name (temporaryName t.name)) = none := by
    simp [next]
  simp only [rebuildStatements, List.foldl_append, List.foldl_cons, List.foldl_nil]
  rw [hrename, hcreate, hcopy, hdrop, foldl_next_createIndexes]
  rfl

/-- A column comes with its indexes. -/
theorem foldl_next_addColumnStatements (st : Standing) (t : Table) (c : Column) (unique : Bool) :
    (addColumnStatements t c unique).foldl (next t.name) (some st) =
      some ⟨st.table, st.added ++ [c], st.indexes ++ t.addedIndexes c unique⟩ := by
  have hadd : next t.name (some st) (.addColumn t.name c) =
      some { st with added := st.added ++ [c] } := by
    simp [next]
  rw [addColumnStatements_eq, List.foldl_cons, hadd, foldl_next_createIndexes]

end Standing

/-! ## 2. The invariant -/

namespace MigrationSet

/-- Tables and columns are known by their names: table names are distinct and no table has the
temporary name of one, column names are distinct and no column has the name of another one as its
accessor, and an index of a generated name is the index that the name is generated for. -/
structure IsWellNamed (set : MigrationSet) : Prop where
  tables : (set.target.values.map (·.name)).Nodup
  temporary : ∀ t ∈ set.target.values, ∀ u ∈ set.target.values, t.name ≠ temporaryName u.name
  columns : ∀ t ∈ set.target.values, t.columnNames.Nodup
  accessors : ∀ t ∈ set.target.values, ∀ c ∈ t.columns, ∀ d ∈ t.columns,
    c.accessor = some d.name → c = d
  columnIndexes : ∀ t ∈ set.target.values, ∀ c ∈ t.columns, ∀ i ∈ t.indexes,
    i.name = columnIndexName t.name c.name → i = t.columnIndex c.name
  uniqueIndexes : ∀ t ∈ set.target.values, ∀ c ∈ t.columns, ∀ i ∈ t.indexes,
    i.name = uniqueIndexName t.name c.name → i = t.uniqueIndex c.name

/-- A unique index that counts as established is declared, or its only column is unique. -/
theorem IsWellNamed.of_established {set : MigrationSet} {t : Table} {m : Migration} {i : Index}
    {p : Progress} (hw : set.IsWellNamed) (ht : t ∈ set.target.values)
    (hk : m.kind = .addUniqueIndex) (hi : m.index t = .ok i) (h : p.established t i = true) :
    i ∈ t.indexes ∨ ∃ c ∈ t.columns, c.unique = true ∧ i.columns.map (·.1) = [c.name] := by
  rcases index_eq_ok hi with hi | ⟨c, hc, hic⟩
  · exact .inl hi
  obtain rfl : i = t.uniqueIndex c.name := by simpa [hk] using hic
  simp only [Progress.established, Bool.and_eq_true, Bool.or_eq_true] at h
  rcases h.2 with hreason | hreason
  · split at hreason
    case h_1 d hd =>
      have hname : d.name = uniqueIndexName t.name c.name := by
        simpa [Table.uniqueIndex, Index.single] using List.find?_some hd
      have hmem : d ∈ t.indexes := List.mem_of_find?_eq_some hd
      exact .inl (hw.uniqueIndexes t ht c hc d hmem hname ▸ hmem)
    case h_2 => exact absurd hreason Bool.false_ne_true
  · simp only [Table.uniqueIndex, Index.single] at hreason
    split at hreason
    case h_2 => exact absurd hreason Bool.false_ne_true
    case h_1 d hd =>
      have hmem : d ∈ t.columns := List.mem_of_find?_eq_some hd
      have hkey : d.name = c.name ∨ d.accessor = some c.name := by
        simpa [Column.hasKey] using List.find?_some hd
      refine .inr ⟨d, hmem, hreason, ?_⟩
      rcases hkey with hname | haccessor
      · rw [hname]
        rfl
      · rw [hw.accessors t ht d hmem c hc haccessor]
        rfl

/-- The migration rebuilds a table, and that before columns are added. -/
def isEarlyRebuild (set : MigrationSet) (t : Table) (m : Migration) : Bool :=
  m.kind.rebuilds && decide (m.kind ≠ .addForeignKey) && set.concerns t m

/-- **What stands of a table that the plan created.**  `deferred` are the columns that the table was
created without.  While columns are added, an index that did not come with the table is over a
column that was added, and such a column is not covered. -/
structure Stands (set : MigrationSet) (t : Table) (before : List PlanStep) (p : Progress)
    (deferred : List String) (st : Standing) : Prop where
  table : st.table = t.without deferred
  isDeferred : ∀ x, p.isDeferred t.name x = deferred.contains x
  created : ∀ i ∈ st.table.createdIndexes ((before.map (·.migration)).any (set.isEarlyRebuild t)),
    i ∈ st.indexes
  others : (∀ s ∈ before, s.migration.kind.priority ≤ 10) → ∀ i ∈ st.indexes,
    i ∈ st.table.createdIndexes ((before.map (·.migration)).any (set.isEarlyRebuild t)) ∨
      ∃ c ∈ t.columns, (t.isConstrained c = true → c.name ∈ deferred) ∧
        i.columns = [(c.name, .asc)]

variable {set : MigrationSet} {t : Table} {ms rest : List Migration} {m : Migration}
  {before : List PlanStep} {step : PlanStep} {p p' : Progress} {deferred : List String}
  {st : Standing}

/-- A step that leaves the table alone keeps what stands of it. -/
theorem Stands.append (h : set.Stands t before p deferred st)
    (hstep : set.isEarlyRebuild t step.migration = false)
    (hp : ∀ x, p'.isDeferred t.name x = p.isDeferred t.name x) :
    set.Stands t (before ++ [step]) p' deferred st where
  table := h.table
  isDeferred x := by rw [hp, h.isDeferred]
  created := by simpa [hstep] using h.created
  others hprio i hi := by
    have hothers := h.others (fun s hs => hprio s (List.mem_append_left _ hs)) i hi
    simpa [hstep] using hothers

/-- Indexes come on top. -/
theorem Stands.createIndexes (h : set.Stands t before p deferred st) (added : List Column)
    {is : List Index} (his : (∀ s ∈ before, s.migration.kind.priority ≤ 10) → ∀ i ∈ is,
      ∃ c ∈ t.columns, (t.isConstrained c = true → c.name ∈ deferred) ∧
        i.columns = [(c.name, .asc)]) :
    set.Stands t before p deferred ⟨st.table, added, st.indexes ++ is⟩ where
  table := h.table
  isDeferred := h.isDeferred
  created i hi := List.mem_append_left _ (h.created i hi)
  others hprio i hi := by
    rcases List.mem_append.mp hi with hi | hi
    · exact h.others hprio i hi
    · exact .inr (his hprio i hi)

/-! ## 3. Steps -/

theorem isEarlyRebuild_eq_false (h : m.kind.rebuilds = false ∨ set.concerns t m = false) :
    set.isEarlyRebuild t m = false := by
  rcases h with h | h <;> simp [isEarlyRebuild, h]

/-- What is known of a table at a point of a plan: if it was created, it stands. -/
def StandsAt (set : MigrationSet) (t : Table) (before : List PlanStep) (p : Progress) : Prop :=
  t.name ∈ p.created → ∃ deferred st,
    Standing.ofStatements t.name (before.flatMap PlanStep.statements) = some st ∧
      set.Stands t before p deferred st

/-- A created table has the indexes of its creation, and no other. -/
theorem stands_of_created {s : Shape} (b : Bool) (hs : set.IsShape t rest s)
    (hb : (before.map (·.migration)).any (set.isEarlyRebuild t) = b ∨
      b = true ∧ ∃ s ∈ before, 10 < s.migration.kind.priority) :
    set.Stands t before ((p.defer t.name s.deferred).markCreated t.name) s.deferred
      ⟨s.table, [], s.table.createdIndexes b⟩ where
  table := hs.table
  isDeferred x := by simp
  created i hi := by
    rcases hb with hb | ⟨rfl, -⟩
    · exact hb ▸ hi
    · unfold Table.createdIndexes at hi
      split at hi
      · exact hi
      · exact Table.mem_allIndexes_of_mem (List.mem_filter.mp hi).1
  others hprio i hi := by
    rcases hb with hb | ⟨-, s, hs, hlt⟩
    · exact .inl (hb ▸ hi)
    · exact absurd (hprio s hs) (by omega)

/-- An index is created on a table when all columns are added. -/
theorem standsAt_createIndex {i : Index} {deed : Deed} (hprio : m.kind.priority = 30)
    (hat : set.StandsAt t before p) (hp : t.name ∈ p.created) :
    ∃ deferred st, [Ddl.createIndex t.name i].foldl (Standing.next t.name)
        (Standing.ofStatements t.name (before.flatMap PlanStep.statements)) = some st ∧
      set.Stands t (before ++ [⟨m, .carriedOut deed⟩]) p deferred st := by
  obtain ⟨deferred, st, hst, hstands⟩ := hat hp
  refine ⟨deferred, _, by rw [hst]; exact Standing.foldl_next_createIndexes [i], ?_⟩
  have hk : m.kind.rebuilds = false := (Migration.Kind.of_priority_eq_thirty hprio).1
  refine (hstands.append (isEarlyRebuild_eq_false (.inl hk)) fun _ => rfl).createIndexes _ ?_
  intro hle
  have h30 := hle _ (List.mem_append_right _ List.mem_cons_self)
  simp only [hprio] at h30
  omega

/-- A deed about another table keeps what stands of this one. -/
theorem standsAt_of_not_concerns {deed : Deed} {ds : List Ddl} (hw : set.IsWellNamed)
    (ht : t ∈ set.target.values) (hc : set.concerns t m = false) (hdrop : m.kind ≠ .dropTable)
    (h : m.Does set rest p ds p') (hat : set.StandsAt t before p) (hp : t.name ∈ p'.created) :
    ∃ deferred st, ds.foldl (Standing.next t.name)
        (Standing.ofStatements t.name (before.flatMap PlanStep.statements)) = some st ∧
      set.Stands t (before ++ [⟨m, .carriedOut deed⟩]) p' deferred st := by
  obtain ⟨u, hu, htables, hprogress⟩ := about_of_does h hdrop
  have hne : u.name ≠ t.name := ne_of_not_concerns hc hu
  obtain ⟨hcreated, hdeferred⟩ := hprogress t.name hne.symm
  obtain ⟨deferred, st, hst, hstands⟩ := hat (hcreated.mp hp)
  refine ⟨deferred, st, ?_, hstands.append (isEarlyRebuild_eq_false (.inr hc)) hdeferred⟩
  rw [hst, Standing.foldl_next_of_untouched]
  intro d hd hmem
  rcases htables d hd _ hmem with hx | hx
  · exact hne hx.symm
  · exact hw.temporary t ht u (mem_of_table? hu) hx

/-- Tables are created first, so nothing was rebuilt until then. -/
theorem any_isEarlyRebuild_of_createTable {deed : Deed}
    (hasc : Migration.Ascending (before.map (·.migration) ++ m :: rest))
    (hk : m.kind = .createTable) :
    ((before ++ [PlanStep.mk m (.carriedOut deed)]).map (·.migration)).any
      (set.isEarlyRebuild t) = false := by
  simp only [List.map_append, List.map_cons, List.map_nil, List.any_eq_false]
  intro m' hm'
  have hle : m'.kind.priority ≤ m.kind.priority := by
    rcases List.mem_append.mp hm' with hm' | hm'
    · exact hasc.le_of_append hm'
    · rw [List.mem_singleton.mp hm']
  rw [hk] at hle
  have hrebuilds : m'.kind.rebuilds = false := Bool.eq_false_iff.mpr fun hrebuilds =>
    Nat.not_le_of_gt (Migration.Kind.priority_pos_of_rebuilds hrebuilds) hle
  simp [isEarlyRebuild_eq_false (.inl hrebuilds)]

/-- A column is added to a table, which it was created without if it carries a constraint. -/
theorem standsAt_addColumn {c : Column} {deed : Deed} (adds : m.kind.addsColumn = true)
    (hc : c ∈ t.columns)
    (needed : t.name ∈ p.created → t.isConstrained c = true → p.isDeferred t.name c.name = true)
    (hat : set.StandsAt t before p) (hp : t.name ∈ p.created) :
    ∃ deferred st, (addColumnStatements t c (m.kind = .addUniqueColumn)).foldl
        (Standing.next t.name)
        (Standing.ofStatements t.name (before.flatMap PlanStep.statements)) = some st ∧
      set.Stands t (before ++ [⟨m, .carriedOut deed⟩]) p deferred st := by
  obtain ⟨deferred, st, hst, hstands⟩ := hat hp
  have hk : m.kind.rebuilds = false := Migration.Kind.rebuilds_of_addsColumn adds
  refine ⟨deferred, _, by rw [hst, Standing.foldl_next_addColumnStatements], ?_⟩
  refine (hstands.append (isEarlyRebuild_eq_false (.inl hk)) fun _ => rfl).createIndexes _ ?_
  intro _ i hi
  refine ⟨c, hc, fun hcon => by simpa [hstands.isDeferred] using needed hp hcon, ?_⟩
  rcases Table.mem_addedIndexes.mp hi with ⟨-, rfl⟩ | ⟨-, rfl⟩ <;> rfl

/-- **A deed keeps what is known of a table**, unless it copies or drops tables. -/
theorem standsAt_of_does {deed : Deed} (hw : set.IsWellNamed) (ht : t ∈ set.target.values)
    (hasc : Migration.Ascending (before.map (·.migration) ++ m :: rest))
    (hprio : m.kind.priority ≤ 30) (h : m.Does set rest p deed.statements p')
    (hat : set.StandsAt t before p) :
    set.StandsAt t (before ++ [⟨m, .carriedOut deed⟩]) p' := by
  have hstatements : Standing.ofStatements t.name
      ((before ++ [PlanStep.mk m (.carriedOut deed)]).flatMap PlanStep.statements) =
      deed.statements.foldl (Standing.next t.name)
        (Standing.ofStatements t.name (before.flatMap PlanStep.statements)) := by
    simp [Standing.ofStatements, List.flatMap_append, PlanStep.statements]
  intro hp
  rw [hstatements]
  generalize deed.statements = ds at h
  have hdrop : m.kind ≠ .dropTable := by
    rintro hk
    rw [hk] at hprio
    exact absurd hprio (by decide)
  cases hc : set.concerns t m with
  | false => exact standsAt_of_not_concerns hw ht hc hdrop h hat hp
  | true =>
    cases h with
    | drop kind => exact absurd kind hdrop
    | @create u s kind table shape =>
      obtain rfl := eq_of_concerns hw.tables ht hc table
      refine ⟨s.deferred, _, Standing.foldl_next_createStatements (name_of_shape shape), ?_⟩
      refine stands_of_created false (shape_eq_ok (hw.columns u ht) shape) (.inl ?_)
      exact any_isEarlyRebuild_of_createTable hasc kind
    | @addColumn u c adds table names needed =>
      obtain rfl := eq_of_concerns hw.tables ht hc table
      exact standsAt_addColumn adds names.mem needed hat hp
    | @addIndex u i kind table =>
      obtain rfl := eq_of_concerns hw.tables ht hc table
      have h30 : m.kind.priority = 30 := by rcases kind with kind | kind <;> rw [kind] <;> rfl
      exact standsAt_createIndex h30 hat hp
    | @makeUnique u c kind table =>
      obtain rfl := eq_of_concerns hw.tables ht hc table
      exact standsAt_createIndex (by rw [kind]; rfl) hat hp
    | copy kind =>
      rw [kind] at hprio
      exact absurd hprio (by decide)
    | @rebuild u s copied kind table shape =>
      obtain rfl := eq_of_concerns hw.tables ht hc table
      refine ⟨s.deferred, _, Standing.foldl_next_rebuildStatements (name_of_shape shape), ?_⟩
      refine stands_of_created true (shape_eq_ok (hw.columns u ht) shape) ?_
      by_cases hf : m.kind = .addForeignKey
      · refine .inr ⟨rfl, _, List.mem_append_right _ List.mem_cons_self, ?_⟩
        simp [hf, Migration.Kind.priority]
      · simp [isEarlyRebuild, kind, hf, hc]

/-- A covered migration has no statements, and it would not have rebuilt its table early. -/
theorem standsAt_of_covered (hm : p.Covered set m) (hat : set.StandsAt t before p) :
    set.StandsAt t (before ++ [⟨m, .covered⟩]) p := by
  intro hp
  obtain ⟨deferred, st, hst, hstands⟩ := hat hp
  have hearly : set.isEarlyRebuild t m = false := by
    cases hm with
    | column adds =>
      exact isEarlyRebuild_eq_false (.inl (Migration.Kind.rebuilds_of_addsColumn adds))
    | index kind => exact isEarlyRebuild_eq_false (.inl (by rw [kind]; rfl))
    | keys kind => simp [isEarlyRebuild, kind]
  refine ⟨deferred, st, ?_, hstands.append hearly fun _ => rfl⟩
  simpa [List.flatMap_append, PlanStep.statements] using hst

/-- **At every point of a plan a created table stands**, up to where tables are copied or
dropped. -/
theorem standsAt_of_reaches (hw : set.IsWellNamed) (ht : t ∈ set.target.values)
    (hasc : Migration.Ascending ms) (h : set.Reaches ms before rest p)
    (hprio : ∀ s ∈ before, s.migration.kind.priority ≤ 30) : set.StandsAt t before p := by
  induction h with
  | start => exact fun hp => absurd hp (by simp [Progress.start])
  | @step before m rest p p' step reached planned ih =>
    have hat := ih fun s hs => hprio s (List.mem_append_left _ hs)
    rcases planStep_cases planned with ⟨rfl, rfl, hcovered⟩ | ⟨deed, rfl, hdoes⟩
    · exact standsAt_of_covered hcovered hat
    · rw [reached.migrations] at hasc
      exact standsAt_of_does hw ht hasc
        (hprio _ (List.mem_append_right _ List.mem_cons_self)) hdoes hat

end MigrationSet
end Tabula
