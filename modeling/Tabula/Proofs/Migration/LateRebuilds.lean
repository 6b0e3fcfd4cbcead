/-
# What a late rebuild takes away

Columns are added after tables are created and rebuilt, but for one kind of rebuild: a foreign key
that is added to a table which the plan has not made anew yet.  Such a late rebuild creates the
table as its target declares it.  A column keeps the index that it asks for, since that is declared
with the column.  That it was added as a unique one is known to the migration alone.

* `MigrationSet.Undoes`: a late rebuild takes away the uniqueness of a column that was added.
* `isUnique_iff_not_undoes`: what was created with an added column is there in the end, but for
  such a uniqueness.
* `undone_linkedNotes`: there is a set that adds a unique column and takes its uniqueness away.
-/
import Tabula.Proofs.Migration.Effects

namespace Tabula

open Tabula.Schema

namespace MigrationSet

/-! ## 1. Late rebuilds -/

/-- A table is rebuilt after columns are added: it gets a foreign key, and it is made anew for no
other reason. -/
def RebuildsLate (set : MigrationSet) (t : Table) (ms : List Migration) : Prop :=
  (∃ m ∈ ms, m.kind = .addForeignKey ∧ set.concerns t m = true) ∧
    ∀ m ∈ ms, set.remakes t m = true → m.kind = .addForeignKey

/-- **A late rebuild takes away the uniqueness of a column**, which is not the column's own, which
no index that is declared states, and which no later migration requests. -/
structure Undoes (set : MigrationSet) (t : Table) (ms : List Migration) (c : Column) : Prop where
  rebuilt : set.RebuildsLate t ms
  plain : c.unique = false
  undeclared : ∀ i ∈ t.indexes, i.unique = true → i.columns.map (·.1) ≠ [c.name]
  unrequested : ∀ m ∈ ms, set.concerns t m = true → m.kind.addsColumn = false →
    ∀ i, m.Requests t i → i.unique = true → i.columns.map (·.1) ≠ [c.name]

variable {set : MigrationSet} {t : Table} {c : Column} {m : Migration}
  {ms rest : List Migration} {i : Index} {step : PlanStep} {before after : List PlanStep}
  {p p' : Progress} {s : Shape} {st : Standing}

/-- A table that a plan has not made anew is made so by nothing but a new foreign key. -/
theorem kind_of_not_created (hplan : set.plan = .ok (before ++ after))
    (hreaches : set.Reaches (Migration.sort ms) before (m :: rest) p)
    (hprio : 10 ≤ m.kind.priority) (hno : t.name ∉ p.created) :
    ∀ m' ∈ ms, set.remakes t m' = true → m'.kind = .addForeignKey := by
  intro m' hm' hremakes
  refine (kind_of_remakes hremakes).resolve_left fun hlt => hno ?_
  obtain ⟨y, hy, rfl⟩ := mem_before_of_priority_lt hreaches hm' (hlt.trans_le hprio)
  rw [mem_created_iff_of_reaches hreaches]
  refine ⟨y, hy, remade_of_mem hplan (List.mem_append_left _ hy) hremakes fun hk => ?_⟩
  rw [hk] at hlt
  exact absurd hlt (by decide)

/-- **A table is rebuilt late** if it is made anew after a column is added. -/
theorem rebuildsLate_of_remade (hplan : set.plan = .ok (before ++ step :: after))
    (hstep : set.Remade t step)
    (hreaches : set.Reaches (Migration.sort ms) before (step.migration :: rest) p)
    (hprio : 10 ≤ step.migration.kind.priority)
    (hneeded : step.migration.kind = .addForeignKey → t.name ∉ p.created) :
    step.migration.kind = .addForeignKey ∧ set.RebuildsLate t ms := by
  have hk : step.migration.kind = .addForeignKey :=
    (kind_of_remakes hstep.2).resolve_left (Nat.not_lt.mpr hprio)
  refine ⟨hk, ⟨step.migration, ?_, hk, ?_⟩, ?_⟩
  · exact hreaches.mem_iff.mpr (.inr List.mem_cons_self)
  · have hremakes := hstep.2
    rw [remakes, Bool.and_eq_true] at hremakes
    exact hremakes.2
  · exact kind_of_not_created hplan hreaches hprio (hneeded hk)

/-- It is not if it is not made anew from there on. -/
theorem not_rebuildsLate_of_planSteps (ha : set.StandsAlone t ms)
    (hreaches : set.Reaches (Migration.sort ms) before (m :: rest) p)
    (hsteps : set.planSteps (m :: rest) p = .ok after) (hprio : m.kind.priority = 10)
    (hno : ∀ y ∈ after, ¬set.Remade t y) : ¬set.RebuildsLate t ms := by
  rintro ⟨⟨m', hm', hk, hconcerns⟩, hall⟩
  have hmem : m' ∈ rest := mem_rest_of_priority_lt hreaches hm' (by rw [hprio, hk]; decide)
  have hplanned : m' ∈ after.map PlanStep.migration := by
    rw [migrations_of_planSteps hsteps]
    exact List.mem_cons_of_mem _ hmem
  obtain ⟨y, hy, rfl⟩ := List.mem_map.mp hplanned
  have hremakes : set.remakes t y.migration = true := by
    simp [remakes, hk, hconcerns, Migration.Kind.rebuilds]
  -- The foreign key is covered, since the table was made anew before.
  have hcovered : y.isCovered = true :=
    Bool.not_eq_false _ ▸ fun hcarried => hno y hy ⟨hcarried, hremakes⟩
  have ha' : set.StandsAlone t (m :: rest) :=
    ha.of_subset fun m hm => hreaches.mem_iff.mpr (.inr hm)
  obtain ⟨-, hpoints⟩ := keeps_of_planSteps ha' hsteps hno ⟨t, [], []⟩
  obtain ⟨q, hq, hcov⟩ := hpoints y hy hcovered
  have hcreated : t.name ∈ q.created := by
    cases hcov with
    | column adds =>
      rw [hk] at adds
      exact Bool.noConfusion adds
    | index kind =>
      rw [hk] at kind
      exact Migration.Kind.noConfusion kind
    | keys _ table created => exact ha.eq_of_concerns hconcerns table ▸ created
  rw [hq.created, mem_created_iff_of_reaches hreaches] at hcreated
  obtain ⟨x, hx, -, hxremakes⟩ := hcreated
  have hle := priority_le_of_reaches hreaches x hx
  rw [hall _ (hreaches.mem_iff.mpr (.inl (List.mem_map_of_mem hx))) hxremakes, hprio] at hle
  exact absurd hle (by decide)

/-! ## 2. What stands after a late rebuild -/

section Rebuilt

variable (hw : set.IsWellNamed) (ht : t ∈ set.target.values) (hc : c ∈ t.columns)
  (h : set.StandsSince t step after s st) (hs : set.shape t rest = .ok s)
  (hall : ∀ x, x ∉ s.deferred)

include hs hall in
theorem mem_indexes_of_shape : i ∈ s.table.indexes ↔ i ∈ t.indexes := by
  simp [table_of_shape hs, Table.mem_indexes_without, hall]

include hs hall in
theorem mem_columns_of_shape {d : Column} : d ∈ s.table.columns ↔ d ∈ t.columns := by
  simp [table_of_shape hs, Table.mem_columns_without, hall]

include hw ht hc h hs hall

/-- A column has the index that it asks for. -/
theorem columnIndex_mem_of_standsSince (hk : step.migration.kind.rebuilds = true)
    (hi : c.indexed = true) : t.columnIndex c.name ∈ st.indexes := by
  have hname : s.table.name = t.name := name_of_shape hs
  have hcolumnIndex : s.table.columnIndex c.name = t.columnIndex c.name := by
    rw [Table.columnIndex, hname]
    rfl
  rw [h.indexes, hk, ← hcolumnIndex]
  refine .inl (Table.columnIndex_mem_allIndexes ((mem_columns_of_shape hs hall).mpr hc) hi ?_)
  intro j hj hjname
  rw [hcolumnIndex]
  rw [hname] at hjname
  exact hw.columnIndexes t ht c hc j ((mem_indexes_of_shape hs hall).mp hj) hjname

/-- **Why a column is unique**: it is unique itself, a declared index is, or one that a later
migration requests. -/
theorem isUnique_iff_of_standsSince (ha : set.StandsAlone t ms)
    (hlater : ∀ y ∈ after, y.migration.kind.addsColumn = false) :
    st.IsUnique [c.name] ↔ c.unique = true ∨
      (∃ i ∈ t.indexes, i.unique = true ∧ i.columns.map (·.1) = [c.name]) ∨
      ∃ y ∈ after, set.concerns t y.migration = true ∧ ∃ i, y.migration.Requests t i ∧
        i.unique = true ∧ i.columns.map (·.1) = [c.name] := by
  have hdeclared : ∀ {i}, i ∈ t.indexes → i.unique = true → i.columns.map (·.1) = [c.name] →
      st.IsUnique [c.name] := by
    intro i hi hu hcolumns
    refine .inr ⟨i, ?_, hu, hcolumns⟩
    rw [h.indexes, Table.mem_createdIndexes_iff _ hu, mem_indexes_of_shape hs hall]
    exact .inl hi
  have hcolumn : ∀ {d}, d ∈ t.columns → d.unique = true → d.name = c.name →
      st.IsUnique [c.name] := by
    intro d hd hu hname
    refine .inl ⟨d, ?_, hu, by rw [hname]⟩
    rw [h.table]
    exact (mem_columns_of_shape hs hall).mpr hd
  constructor
  · rintro (⟨d, hd, hu, hname⟩ | ⟨i, hi, hu, hcolumns⟩)
    · rw [h.table, mem_columns_of_shape hs hall] at hd
      obtain rfl : d = c :=
        List.inj_on_of_nodup_map (hw.columns t ht) hd hc (List.singleton_inj.mp hname).symm
      exact .inl hu
    · rw [h.indexes, Table.mem_createdIndexes_iff _ hu, mem_indexes_of_shape hs hall] at hi
      rcases hi with hi | ⟨y, hy, -, hconcerns, hrequests⟩
      · exact .inr (.inl ⟨i, hi, hu, hcolumns⟩)
      · exact .inr (.inr ⟨y, hy, hconcerns, i, hrequests, hu, hcolumns⟩)
  · rintro (hu | ⟨i, hi, hu, hcolumns⟩ | ⟨y, hy, hconcerns, i, hrequests, hu, hcolumns⟩)
    · exact hcolumn hc hu rfl
    · exact hdeclared hi hu hcolumns
    · cases hcovered : y.isCovered with
      | false =>
        refine .inr ⟨i, ?_, hu, hcolumns⟩
        rw [h.indexes]
        exact .inr ⟨y, hy, hcovered, hconcerns, hrequests⟩
      | true =>
        -- What covers the request is declared, too.
        obtain ⟨q, -, hcov⟩ := h.covered y hy hcovered
        cases hcov with
        | column adds =>
          rw [hlater y hy] at adds
          exact Bool.noConfusion adds
        | @index u j kind table _ index established =>
          obtain rfl := ha.eq_of_concerns hconcerns table
          obtain rfl := (Migration.requests_iff_of_index (.inr kind) index).mp hrequests
          rcases hw.of_established ht kind index established with hi | ⟨d, hd, hdu, hdcolumns⟩
          · exact hdeclared hi hu hcolumns
          · exact hcolumn hd hdu (List.singleton_inj.mp (hdcolumns.symm.trans hcolumns))
        | keys kind =>
          rcases hrequests.kind with hk | hk <;> rw [kind] at hk
          · exact Bool.noConfusion hk
          · exact absurd hk (by decide)

end Rebuilt

/-! ## 3. What was created with a column -/

/-- The indexes that a step creates with a column are those that its migration requests. -/
theorem grants_of_mem_statements (hplanned : set.planStep step.migration rest p = .ok (step, p'))
    (hadds : step.migration.kind.addsColumn = true)
    (ht : set.table? step.migration.table = some t) (hc : step.migration.Names t c)
    (hi : Ddl.createIndex t.name i ∈ step.statements) : set.Grants t step i := by
  have hcarried : step.isCovered = false := by
    obtain ⟨m, action⟩ := step
    cases action with
    | covered => exact absurd hi List.not_mem_nil
    | carriedOut deed => rfl
  have hdoes := does_of_planStep hplanned hcarried
  rw [hdoes.of_addsColumn hadds ht hc, addColumnStatements_eq] at hi
  refine ⟨hcarried, concerns_of_table? ht rfl, ?_⟩
  rw [Migration.requests_iff_of_addsColumn hadds hc]
  simpa using hi

/-- After a late rebuild, a requested index is there, or it is unique and may have been undone. -/
theorem isUnique_iff_of_rebuilt (hw : set.IsWellNamed) (ha : set.StandsAlone t ms)
    (ht : t ∈ set.target.values) (hadds : m.kind.addsColumn = true) (hc : m.Names t c)
    (hi : m.Requests t i)
    (hreaches : set.Reaches (Migration.sort ms) before (step.migration :: rest) p)
    (hafter : after.map PlanStep.migration = rest) (hs : set.shape t rest = .ok s)
    (hk : step.migration.kind = .addForeignKey) (hlate : set.RebuildsLate t ms)
    (h : set.StandsSince t step after s st) :
    (i.unique = false → i ∈ st.indexes) ∧
      (i.unique = true → (st.IsUnique (i.columns.map (·.1)) ↔ ¬set.Undoes t ms c)) := by
  have hnone : ∀ m ∈ rest, m.kind.addsColumn = false := by
    intro m hm
    have hle := le_priority_of_reaches hreaches m hm
    rw [hk] at hle
    refine Bool.eq_false_iff.mpr fun hadds => ?_
    rw [Migration.Kind.priority_of_addsColumn hadds] at hle
    exact absurd hle (by decide)
  have hall : ∀ x, x ∉ s.deferred := by
    intro x hx
    obtain ⟨m, hm, -, ⟨hadds, -⟩, -⟩ := (mem_deferred_of_shape hs).mp hx
    rw [hnone m hm] at hadds
    exact Bool.noConfusion hadds
  have hlater : ∀ y ∈ after, y.migration.kind.addsColumn = false := fun y hy =>
    hnone _ (hafter ▸ List.mem_map_of_mem hy)
  rw [Migration.requests_iff_of_addsColumn hadds hc, Table.mem_addedIndexes] at hi
  rcases hi with ⟨-, rfl⟩ | ⟨hindexed, rfl⟩
  · refine ⟨fun hu => Bool.noConfusion hu, fun _ => ?_⟩
    have hiff := isUnique_iff_of_standsSince hw ht hc.mem h hs hall ha hlater
    constructor
    · intro hunique hundoes
      rcases hiff.mp hunique with
        hu | ⟨i, hi, hu, hcolumns⟩ | ⟨y, hy, hconcerns, i, hi, hu, hcolumns⟩
      · rw [hundoes.plain] at hu
        exact Bool.noConfusion hu
      · exact hundoes.undeclared i hi hu hcolumns
      · have hmem : y.migration ∈ rest := hafter ▸ List.mem_map_of_mem hy
        refine hundoes.unrequested _ ?_ hconcerns (hlater y hy) i hi hu hcolumns
        exact hreaches.mem_iff.mpr (.inr (List.mem_cons_of_mem _ hmem))
    · intro hundoes
      by_contra hno
      refine hundoes ⟨hlate, ?_, ?_, ?_⟩
      · exact Bool.eq_false_iff.mpr fun hu => hno (hiff.mpr (.inl hu))
      · exact fun i hi hu hcolumns => hno (hiff.mpr (.inr (.inl ⟨i, hi, hu, hcolumns⟩)))
      · intro m hm hconcerns hadds i hi hu hcolumns
        -- What is requested otherwise is requested after the rebuild.
        have h30 : m.kind.priority = 30 := hi.kind.resolve_left (by simp [hadds])
        have hmem := mem_rest_of_priority_lt hreaches hm (by rw [hk, h30]; decide)
        rw [← hafter] at hmem
        obtain ⟨y, hy, rfl⟩ := List.mem_map.mp hmem
        exact hno (hiff.mpr (.inr (.inr ⟨y, hy, hconcerns, i, hi, hu, hcolumns⟩)))
  · refine ⟨fun _ => ?_, fun hu => Bool.noConfusion hu⟩
    exact columnIndex_mem_of_standsSince hw ht hc.mem h hs hall (by rw [hk]; rfl) hindexed

/-- **An index that was created with a column is there in the end, and the uniqueness that it stands
for is in force exactly if no late rebuild undoes it.** -/
theorem isUnique_iff_not_undoes {st? : Option Standing} {st₀ : Standing} (hw : set.IsWellNamed)
    (hms : set.migrations = .ok ms) (hplan : set.plan = .ok (before ++ step :: after))
    (hadds : step.migration.kind.addsColumn = true)
    (ht : set.table? step.migration.table = some t) (hc : step.migration.Names t c)
    (hdrop : ∀ m ∈ ms, m.kind = .dropTable → m.table ≠ t.name)
    (hst : (before.flatMap PlanStep.statements).foldl (Standing.next t.name) st? = some st₀) :
    ∃ st, ((before ++ step :: after).flatMap PlanStep.statements).foldl (Standing.next t.name) st? =
        some st ∧
      ∀ i, Ddl.createIndex t.name i ∈ step.statements →
        (i.unique = false → i ∈ st.indexes) ∧
          (i.unique = true → (st.IsUnique (i.columns.map (·.1)) ↔ ¬set.Undoes t ms c)) := by
  have ha : set.StandsAlone t ms := hw.standsAlone (mem_of_table? ht) hdrop
  have h10 : step.migration.kind.priority = 10 := Migration.Kind.priority_of_addsColumn hadds
  obtain ⟨rest, p, p', hreaches, hplanned, hafter⟩ := reaches_of_plan_cons hms hplan
  have hgrants : ∀ i, Ddl.createIndex t.name i ∈ step.statements → set.Grants t step i :=
    fun i => grants_of_mem_statements hplanned hadds ht hc
  by_cases hlate : ∃ y ∈ after, set.Remade t y
  · obtain ⟨middle, x, later, rfl, hx, hlast⟩ := exists_last hlate
    have hsplit : before ++ step :: (middle ++ x :: later) =
        (before ++ step :: middle) ++ x :: later := by simp
    rw [hsplit] at hplan ⊢
    obtain ⟨rest, p, s, hreaches, hlater, hs, hneeded, hstands⟩ :=
      standsSince_of_plan ha hms hplan hx hlast
    have hprio : 10 ≤ x.migration.kind.priority :=
      h10 ▸ priority_le_of_reaches hreaches step (by simp)
    obtain ⟨hk, hrebuilt⟩ := rebuildsLate_of_remade hplan hx hreaches hprio hneeded
    obtain ⟨st, hst, hsince⟩ := hstands st?
    refine ⟨st, hst, fun i hi => ?_⟩
    exact isUnique_iff_of_rebuilt hw ha (mem_of_table? ht) hadds hc (hgrants i hi).2.2 hreaches
      hlater hs hk hrebuilt hsince
  · push Not at hlate
    -- Neither is the table made anew by the step that adds the column.
    have hsteps : set.planSteps (step.migration :: rest) p = .ok (step :: after) := by
      simp [planSteps, hplanned, hafter, bind, Except.bind, pure, Except.pure]
    have hno : ∀ y ∈ step :: after, ¬set.Remade t y := by
      refine List.forall_mem_cons.mpr ⟨fun hstep => ?_, hlate⟩
      rcases kind_of_remakes hstep.2 with hlt | hk
      · omega
      · rw [hk] at hadds
        exact Bool.noConfusion hadds
    have ha' : set.StandsAlone t (step.migration :: rest) :=
      ha.of_subset fun m hm => hreaches.mem_iff.mpr (.inr hm)
    obtain ⟨⟨st, hst', -, hindexes⟩, -⟩ := keeps_of_planSteps ha' hsteps hno st₀
    refine ⟨st, ?_, fun i hi => ?_⟩
    · rw [List.flatMap_append, List.foldl_append, hst, hst']
    · have hmem : i ∈ st.indexes := by
        rw [hindexes]
        exact .inr ⟨step, List.mem_cons_self, hgrants i hi⟩
      refine ⟨fun _ => hmem, fun hu => iff_of_true (.inr ⟨i, hmem, hu, rfl⟩) fun hundoes => ?_⟩
      exact not_rebuildsLate_of_planSteps ha hreaches hsteps h10 hno hundoes.rebuilt

end MigrationSet

/-! ## 4. A set that takes back what it added, and one that does not -/

/-- A table of an author's notes.  Whether no two notes share a slug is left open. -/
def notesWith (slug : Column) : Table :=
  { name := "notes"
    columns := [.plain "id" .integer, .plain "author" .integer, slug]
    primaryKey := ["id"]
    foreignKeys := [.single "author" "authors" "id"]
    indexes := [] }

/-- The table gets a column, to be unique, and a foreign key. -/
def linkedNotes (slug : Column) : MigrationSet :=
  .ofMigrations [.ofColumn .addUniqueColumn "notes" "slug",
    .ofColumn .addForeignKey "notes" "author"] [notesWith slug] 1

/-- The plan for them. -/
def linkedNotesPlan (slug : Column) : List PlanStep :=
  [⟨.ofColumn .addUniqueColumn "notes" "slug",
      .carriedOut (.ofStatements (addColumnStatements (notesWith slug) slug true))⟩,
    ⟨.ofColumn .addForeignKey "notes" "author", .carriedOut
      (.ofStatements (rebuildStatements (notesWith slug) ["id", "author", "slug"]))⟩]

/-- A slug that is not unique by itself. -/
def plainSlug : Column := .plain "slug" .text

/-- **A column that was added as a unique one and is not unique in the end**, whatever stood of its
table at first. -/
theorem undone_linkedNotes :
    (linkedNotes plainSlug).plan = .ok (linkedNotesPlan plainSlug) ∧
      Ddl.createIndex "notes" ((notesWith plainSlug).uniqueIndex "slug") ∈
        addColumnStatements (notesWith plainSlug) plainSlug true ∧
      ∀ st?, ∃ st, ((linkedNotesPlan plainSlug).flatMap PlanStep.statements).foldl
          (Standing.next "notes") st? = some st ∧ ¬st.IsUnique ["slug"] := by
  refine ⟨?_, ?_, fun st? => ⟨⟨notesWith plainSlug, [], []⟩, ?_, ?_⟩⟩
  · rw [plan_eq_planSteps rfl, Migration.sort_eq_self (by decide)]
    rfl
  · simp [addColumnStatements, notesWith, plainSlug, Column.plain]
  · have hstatements : (linkedNotesPlan plainSlug).flatMap PlanStep.statements =
        addColumnStatements (notesWith plainSlug) plainSlug true ++
          rebuildStatements (notesWith plainSlug) ["id", "author", "slug"] := rfl
    rw [hstatements, List.foldl_append]
    exact Standing.foldl_next_rebuildStatements rfl
  · rintro (⟨c, hc, hu, -⟩ | ⟨i, hi, -⟩)
    · simp only [notesWith, List.mem_cons, List.not_mem_nil, or_false] at hc
      rcases hc with rfl | rfl | rfl <;> exact Bool.noConfusion hu
    · exact List.not_mem_nil hi

/-- A slug that is unique by itself, and asks for an index. -/
def uniqueSlug : Column := { plainSlug with unique := true, indexed := true }

theorem kept_linkedNotes :
    ∃ st, ((linkedNotesPlan uniqueSlug).flatMap PlanStep.statements).foldl
        (Standing.next "notes") (some ⟨notesWith plainSlug, [], []⟩) = some st ∧
      (notesWith uniqueSlug).columnIndex "slug" ∈ st.indexes ∧ st.IsUnique ["slug"] := by
  have hplan : (linkedNotes uniqueSlug).plan = .ok ([] ++ linkedNotesPlan uniqueSlug) := by
    rw [plan_eq_planSteps rfl, Migration.sort_eq_self (by decide)]
    rfl
  have hw : (linkedNotes uniqueSlug).IsWellNamed := by
    have hvalues : (linkedNotes uniqueSlug).target.values = [notesWith uniqueSlug] := rfl
    constructor
    case tables => decide
    all_goals simp only [hvalues, List.mem_singleton, forall_eq]
    case accessors => simp [notesWith, uniqueSlug, plainSlug, Column.plain]
    all_goals decide
  obtain ⟨st, hst, h⟩ := MigrationSet.isUnique_iff_not_undoes hw rfl hplan rfl rfl
    ⟨"slug", rfl, rfl⟩ (by decide) rfl
  have hcreated : ∀ i ∈ (notesWith uniqueSlug).addedIndexes uniqueSlug true,
      Ddl.createIndex "notes" i ∈ addColumnStatements (notesWith uniqueSlug) uniqueSlug true := by
    intro i hi
    rw [addColumnStatements_eq]
    exact List.mem_cons_of_mem _ (List.mem_map_of_mem hi)
  have hindex := (h ((notesWith uniqueSlug).columnIndex "slug") (hcreated _ (by decide))).1 rfl
  have hunique := (h ((notesWith uniqueSlug).uniqueIndex "slug") (hcreated _ (by decide))).2 rfl
  refine ⟨st, hst, hindex, hunique.mpr ?_⟩
  rintro ⟨-, hplain, -, -⟩
  exact Bool.noConfusion hplain

end Tabula
