/-
# What a covered migration leaves undone

A migration is covered when an earlier CREATE TABLE made what it asks for.  For indexes and foreign
keys that is so.  A column that is covered is in its table, too, but not all that comes with an
added column is: CREATE TABLE states no index but the declared unique ones, so that the index which
the column asks for is missing unless the table was rebuilt, and the uniqueness which ADD UNIQUE
asks for is missing unless the column or a declared index is unique (`MigrationSet.Loses`).

* `MigrationSet.InForce`: what a migration would add is there after some statements.
* `inForce_iff_of_covered`: a covered migration is in force exactly if it loses nothing.
* `notInForce_newClubs`: there is a set that loses both.
-/
import Tabula.Proofs.Migration.Standing

namespace Tabula

open Tabula.Schema

/-! ## 1. What a migration would add -/

/-- **What a migration would add to a table stands.**  A column that is added comes with the index
that it asks for, and with a unique one if it or the migration is unique. -/
structure Standing.Holds (st : Standing) (t : Table) (m : Migration) : Prop where
  column : m.kind.addsColumn = true → ∃ c, m.Names t c ∧ st.HasColumn c ∧
    (c.indexed = true → t.columnIndex c.name ∈ st.indexes) ∧
    (c.unique = true ∨ m.kind = .addUniqueColumn → st.IsUnique [c.name])
  index : m.kind = .addUniqueIndex →
    ∃ i, m.index t = .ok i ∧ (i.unique = true → st.IsUnique (i.columns.map (·.1)))
  keys : m.kind = .addForeignKey → ∀ k ∈ t.foreignKeys, k ∈ st.table.foreignKeys

namespace MigrationSet

/-- What a migration would add is there after some statements. -/
def InForce (set : MigrationSet) (m : Migration) (ds : List Ddl) : Prop :=
  ∃ t st, set.table? m.table = some t ∧ Standing.ofStatements t.name ds = some st ∧ st.Holds t m

/-- **What is lost if a migration is covered**: the index of a column whose table is not rebuilt, or
the uniqueness of a column that only the migration states. -/
def Loses (set : MigrationSet) (ms : List Migration) (m : Migration) : Prop :=
  m.kind.addsColumn = true ∧ ∃ t c, set.table? m.table = some t ∧ m.Names t c ∧
    ((c.indexed = true ∧ ms.any (set.isEarlyRebuild t) = false) ∨
      (m.kind = .addUniqueColumn ∧ c.unique = false ∧
        ¬∃ i ∈ t.indexes, i.unique = true ∧ i.columns.map (·.1) = [c.name]))

variable {set : MigrationSet} {t : Table} {c : Column} {i : Index} {ms rest : List Migration}
  {m : Migration} {before after : List PlanStep} {step : PlanStep} {p : Progress}
  {deferred : List String} {st : Standing}

/-! ## 2. Columns -/

/-- A declared unique index over a covered column is there. -/
theorem Stands.mem_of_unique (h : set.Stands t before p deferred st) (hi : i ∈ t.indexes)
    (hu : i.unique = true) (hkept : ∀ x ∈ i.columns, x.1 ∉ deferred) : i ∈ st.indexes := by
  have hmem : i ∈ st.table.indexes := by
    rw [h.table, Table.mem_indexes_without]
    exact ⟨hi, hkept⟩
  exact h.created i ((Table.mem_createdIndexes_iff _ hu).mpr hmem)

/-- A unique column that was not deferred is unique in its table. -/
theorem Stands.isUnique_of_unique (h : set.Stands t before p deferred st) (hc : c ∈ t.columns)
    (hkept : c.name ∉ deferred) (hu : c.unique = true) : st.IsUnique [c.name] := by
  refine .inl ⟨c, ?_, hu, rfl⟩
  rw [h.table, Table.mem_columns_without]
  exact ⟨hc, hkept⟩

section Columns

variable (hw : set.IsWellNamed) (ht : t ∈ set.target.values)
  (h : set.Stands t before p deferred st)
  (hprio : ∀ s ∈ before, s.migration.kind.priority ≤ 10)
  (hc : c ∈ t.columns) (hcon : t.isConstrained c = true) (hkept : c.name ∉ deferred)

include hw ht h hprio hc hcon hkept

/-- An index that did not come with the table is over another column. -/
theorem mem_createdIndexes_of_stands (hi : i ∈ st.indexes)
    (hcolumns : i.columns.map (·.1) = [c.name]) :
    i ∈ st.table.createdIndexes ((before.map (·.migration)).any (set.isEarlyRebuild t)) := by
  rcases h.others hprio i hi with hi | ⟨d, hd, hadded, hdcolumns⟩
  · exact hi
  · have hname : d.name = c.name := by simpa [hdcolumns] using hcolumns
    obtain rfl : d = c := List.inj_on_of_nodup_map (hw.columns t ht) hd hc hname
    exact absurd (hadded hcon) hkept

/-- The index of a covered column is there exactly if its table was rebuilt. -/
theorem columnIndex_mem_iff_of_stands (hindexed : c.indexed = true) :
    t.columnIndex c.name ∈ st.indexes ↔
      (before.map (·.migration)).any (set.isEarlyRebuild t) = true := by
  constructor
  · intro hi
    have hcreated := mem_createdIndexes_of_stands hw ht h hprio hc hcon hkept hi rfl
    cases hb : (before.map (·.migration)).any (set.isEarlyRebuild t) with
    | true => rfl
    | false =>
      -- Without a rebuild only unique indexes were created.
      rw [hb] at hcreated
      exact absurd (List.mem_filter.mp hcreated).2 Bool.false_ne_true
  · intro hb
    refine h.created _ ?_
    have hcolumn : c ∈ st.table.columns := by
      rw [h.table, Table.mem_columns_without]
      exact ⟨hc, hkept⟩
    have hname : st.table.columnIndex c.name = t.columnIndex c.name := by rw [h.table]; rfl
    rw [hb, ← hname]
    refine Table.columnIndex_mem_allIndexes hcolumn hindexed fun j hj hjname => ?_
    rw [h.table, Table.mem_indexes_without] at hj
    rw [h.table] at hjname ⊢
    exact hw.columnIndexes t ht c hc j hj.1 hjname

/-- Another covered column is unique exactly if a declared index says so. -/
theorem isUnique_iff_of_stands (hu : c.unique = false) :
    st.IsUnique [c.name] ↔
      ∃ i ∈ t.indexes, i.unique = true ∧ i.columns.map (·.1) = [c.name] := by
  constructor
  · rintro (⟨d, hd, hdu, hname⟩ | ⟨i, hi, hiu, hcolumns⟩)
    · rw [h.table, Table.mem_columns_without] at hd
      obtain rfl : d = c :=
        List.inj_on_of_nodup_map (hw.columns t ht) hd.1 hc (List.singleton_inj.mp hname).symm
      rw [hu] at hdu
      exact Bool.noConfusion hdu
    · have hcreated := mem_createdIndexes_of_stands hw ht h hprio hc hcon hkept hi hcolumns
      rw [Table.mem_createdIndexes_iff _ hiu, h.table, Table.mem_indexes_without] at hcreated
      exact ⟨i, hcreated.1, hiu, hcolumns⟩
  · rintro ⟨i, hi, hiu, hcolumns⟩
    refine .inr ⟨i, h.mem_of_unique hi hiu fun x hx => ?_, hiu, hcolumns⟩
    have hname : x.1 ∈ i.columns.map (·.1) := List.mem_map_of_mem hx
    rw [hcolumns, List.mem_singleton] at hname
    rwa [hname]

end Columns

/-! ## 3. Indexes -/

/-- **A covered unique index is there**, or its column is unique in its table. -/
theorem isUnique_of_established (hw : set.IsWellNamed) (ht : t ∈ set.target.values)
    (h : set.Stands t before p deferred st) (hk : m.kind = .addUniqueIndex)
    (hi : m.index t = .ok i) (hest : p.established t i = true) (hu : i.unique = true) :
    st.IsUnique (i.columns.map (·.1)) := by
  have hkept : ∀ x ∈ i.columns, x.1 ∉ deferred := by
    intro x hx
    have hx := Progress.kept_of_established hest x hx
    rw [h.isDeferred] at hx
    simpa using hx
  rcases hw.of_established ht hk hi hest with hi | ⟨c, hc, hcu, hcolumns⟩
  · exact .inr ⟨i, h.mem_of_unique hi hu hkept, hu, rfl⟩
  · rw [hcolumns]
    refine h.isUnique_of_unique hc ?_ hcu
    obtain ⟨x, hx, hname⟩ := List.mem_map.mp (hcolumns ▸ List.mem_singleton_self c.name)
    exact hname ▸ hkept x hx

/-! ## 4. Covered steps -/

/-- Where a column is added, all early rebuilds are done. -/
theorem any_isEarlyRebuild_of_reaches
    (h : set.Reaches (Migration.sort ms) before (m :: rest) p) (hm : m.kind.priority = 10) :
    (before.map (·.migration)).any (set.isEarlyRebuild t) = ms.any (set.isEarlyRebuild t) := by
  have hlater : (m :: rest).any (set.isEarlyRebuild t) = false := by
    have hasc := Migration.ascending_sort ms
    rw [h.migrations] at hasc
    rw [List.any_eq_false]
    intro m' hm' hearly
    have hle : 10 ≤ m'.kind.priority := hm ▸ hasc.of_append.le hm'
    simp only [isEarlyRebuild, Bool.and_eq_true, decide_eq_true_eq] at hearly
    exact Nat.not_le_of_gt (Migration.Kind.priority_lt_of_rebuilds hearly.1.1 hearly.1.2) hle
  rw [← (Migration.sort_perm ms).any_eq, h.migrations, List.any_append, hlater, Bool.or_false]

/-- The case of a column. -/
theorem inForce_iff_of_stands {ds : List Ddl} (hw : set.IsWellNamed)
    (h : set.Stands t before p deferred st)
    (hprio : ∀ s ∈ before, s.migration.kind.priority ≤ 10) (hcon : t.isConstrained c = true)
    (hkept : c.name ∉ deferred) (hk : m.kind.addsColumn = true)
    (ht : set.table? m.table = some t) (hc : m.Names t c)
    (hst : Standing.ofStatements t.name ds = some st)
    (hearly : (before.map (·.migration)).any (set.isEarlyRebuild t) =
      ms.any (set.isEarlyRebuild t)) :
    set.InForce m ds ↔ ¬set.Loses ms m := by
  have hindex := columnIndex_mem_iff_of_stands hw (mem_of_table? ht) h hprio hc.mem hcon hkept
  have hunique := isUnique_iff_of_stands hw (mem_of_table? ht) h hprio hc.mem hcon hkept
  rw [hearly] at hindex
  constructor
  · rintro ⟨t', st', ht', hst', hholds⟩ ⟨-, t'', c', ht'', hc', hlost⟩
    obtain rfl := Option.some.inj (ht'.symm.trans ht)
    obtain rfl := Option.some.inj (ht''.symm.trans ht)
    obtain rfl := Option.some.inj (hst'.symm.trans hst)
    obtain rfl := hc.eq hc'
    obtain ⟨d, hd, -, hdindex, hdunique⟩ := hholds.column hk
    obtain rfl := hc.eq hd
    rcases hlost with ⟨hci, hno⟩ | ⟨hkind, hcu, hno⟩
    · rw [(hindex hci).mp (hdindex hci)] at hno
      exact Bool.noConfusion hno
    · exact hno ((hunique hcu).mp (hdunique (.inr hkind)))
  · intro hno
    refine ⟨t, st, ht, hst, ⟨fun _ => ⟨c, hc, ?_, fun hci => ?_, fun hu => ?_⟩, ?_, ?_⟩⟩
    · left
      rw [h.table, Table.mem_columns_without]
      exact ⟨hc.mem, hkept⟩
    · refine (hindex hci).mpr (by_contra fun hb => hno ⟨hk, t, c, ht, hc, .inl ⟨hci, ?_⟩⟩)
      exact Bool.not_eq_true _ ▸ hb
    · cases hcu : c.unique with
      | true => exact h.isUnique_of_unique hc.mem hkept hcu
      | false =>
        have hkind : m.kind = .addUniqueColumn := hu.resolve_left (by simp [hcu])
        refine (hunique hcu).mpr (by_contra fun hb => hno ⟨hk, t, c, ht, hc, .inr ?_⟩)
        exact ⟨hkind, hcu, hb⟩
    all_goals
      intro hkind
      rw [hkind] at hk
      exact Bool.noConfusion hk

/-- Where a migration is covered, created tables stand. -/
theorem standsAt_of_covered_at (hw : set.IsWellNamed)
    (h : set.Reaches (Migration.sort ms) before (m :: rest) p) (hm : p.Covered set m) :
    ∀ t ∈ set.target.values, set.StandsAt t before p := by
  have hkind : m.kind.priority ≤ 30 := by
    cases hm with
    | column adds => rw [Migration.Kind.priority_of_addsColumn adds]; decide
    | index kind | keys kind => rw [kind]; decide
  intro t ht
  refine standsAt_of_reaches hw ht (Migration.ascending_sort ms) h fun s hs => ?_
  exact (priority_le_of_reaches h s hs).trans hkind

/-- A migration that adds no column loses nothing. -/
theorem not_loses_of_kind (hk : m.kind.addsColumn = false) : ¬set.Loses ms m := by
  rintro ⟨hadds, -⟩
  rw [hk] at hadds
  exact Bool.noConfusion hadds

/-- **A covered migration is in force exactly if it loses nothing.** -/
theorem inForce_iff_of_covered (hw : set.IsWellNamed) (hms : set.migrations = .ok ms)
    (hplan : set.plan = .ok (before ++ step :: after)) (hcovered : step.isCovered = true) :
    set.InForce step.migration (before.flatMap PlanStep.statements) ↔
      ¬set.Loses ms step.migration := by
  obtain ⟨rest, p, hreaches, hcov⟩ := covered_of_plan hms hplan hcovered
  generalize step.migration = m at *
  have hat := standsAt_of_covered_at hw hreaches hcov
  cases hcov with
  | @column t c adds table created names constrained kept =>
    have h10 : m.kind.priority = 10 := Migration.Kind.priority_of_addsColumn adds
    obtain ⟨deferred, st, hst, hstands⟩ := hat t (mem_of_table? table) created
    have hkept : c.name ∉ deferred := by
      have hdeferred := hstands.isDeferred c.name
      rw [kept] at hdeferred
      simpa using hdeferred.symm
    have hprio : ∀ s ∈ before, s.migration.kind.priority ≤ 10 :=
      h10 ▸ priority_le_of_reaches hreaches
    exact inForce_iff_of_stands hw hstands hprio constrained hkept adds table names hst
      (any_isEarlyRebuild_of_reaches hreaches h10)
  | @index t i kind table created index established =>
    obtain ⟨deferred, st, hst, hstands⟩ := hat t (mem_of_table? table) created
    have hadds : m.kind.addsColumn = false := by rw [kind]; rfl
    have hunique := isUnique_of_established hw (mem_of_table? table) hstands kind index established
    refine iff_of_true ⟨t, st, table, hst, ?_⟩ (not_loses_of_kind hadds)
    exact ⟨by simp [hadds], fun _ => ⟨i, index, hunique⟩, by simp [kind]⟩
  | @keys t kind table created =>
    obtain ⟨deferred, st, hst, hstands⟩ := hat t (mem_of_table? table) created
    have hadds : m.kind.addsColumn = false := by rw [kind]; rfl
    have hkeys : ∀ k ∈ t.foreignKeys, k ∈ st.table.foreignKeys := by
      rw [hstands.table]
      exact fun k hk => hk
    refine iff_of_true ⟨t, st, table, hst, ?_⟩ (not_loses_of_kind hadds)
    exact ⟨by simp [hadds], by simp [kind], fun _ => hkeys⟩

end MigrationSet

/-! ## 5. A set that loses both, and one that loses nothing -/

/-- A table with two keys to other tables, one of them indexed. -/
def clubs : Table :=
  { name := "clubs"
    columns := [.plain "id" .integer, .plain "captain" .integer,
      { Column.plain "city" .integer with indexed := true }]
    primaryKey := ["id"]
    foreignKeys := [.single "captain" "members" "id", .single "city" "cities" "id"]
    indexes := [] }

/-- The table is created, which covers both keys. -/
def newClubs : MigrationSet :=
  .ofMigrations [.ofTable .createTable "clubs", .ofColumn .addUniqueColumn "clubs" "captain",
    .ofColumn .addColumn "clubs" "city"] [clubs] 1

/-- **Two covered migrations that are not in force**: after the only statement of the plan, one
column is not unique and the other has no index. -/
theorem notInForce_newClubs :
    newClubs.plan = .ok
      [⟨.ofTable .createTable "clubs", .carriedOut (.ofStatements [.createTable clubs])⟩,
        ⟨.ofColumn .addUniqueColumn "clubs" "captain", .covered⟩,
        ⟨.ofColumn .addColumn "clubs" "city", .covered⟩] ∧
      ¬newClubs.InForce (.ofColumn .addUniqueColumn "clubs" "captain") [.createTable clubs] ∧
      ¬newClubs.InForce (.ofColumn .addColumn "clubs" "city") [.createTable clubs] := by
  refine ⟨?_, ?_, ?_⟩
  · rw [plan_eq_planSteps rfl, Migration.sort_eq_self (by decide)]
    rfl
  · rintro ⟨t, st, ht, hst, hholds⟩
    obtain rfl : clubs = t := Option.some.inj ht
    obtain rfl : ⟨clubs, [], []⟩ = st := Option.some.inj hst
    obtain ⟨c, ⟨key, hkey, hc⟩, -, -, hunique⟩ := hholds.column rfl
    obtain rfl := Option.some.inj hkey
    obtain rfl := Option.some.inj hc
    rcases hunique (.inr rfl) with ⟨d, hd, hdu, -⟩ | ⟨i, hi, -⟩
    · simp only [clubs, List.mem_cons, List.not_mem_nil, or_false] at hd
      rcases hd with rfl | rfl | rfl <;> exact Bool.noConfusion hdu
    · exact List.not_mem_nil hi
  · rintro ⟨t, st, ht, hst, hholds⟩
    obtain rfl : clubs = t := Option.some.inj ht
    obtain rfl : ⟨clubs, [], []⟩ = st := Option.some.inj hst
    obtain ⟨c, ⟨key, hkey, hc⟩, -, hindex, -⟩ := hholds.column rfl
    obtain rfl := Option.some.inj hkey
    obtain rfl := Option.some.inj hc
    exact List.not_mem_nil (hindex rfl)

/-- The table is rebuilt before its column would be added. -/
def rebuiltClubs : MigrationSet :=
  .ofMigrations [.ofTable .createTable "clubs", .ofTable .updateForeignKeys "clubs",
    .ofColumn .addColumn "clubs" "city"] [clubs] 1

theorem plan_rebuiltClubs :
    rebuiltClubs.plan = .ok
      ([⟨.ofTable .createTable "clubs", .carriedOut (.ofStatements [.createTable clubs])⟩,
        ⟨.ofTable .updateForeignKeys "clubs",
          .carriedOut (.ofStatements (rebuildStatements clubs ["id", "captain"]))⟩] ++
        [⟨.ofColumn .addColumn "clubs" "city", .covered⟩]) := by
  rw [plan_eq_planSteps rfl, Migration.sort_eq_self (by decide)]
  rfl

theorem values_rebuiltClubs : rebuiltClubs.target.values = [clubs] := rfl

theorem inForce_rebuiltClubs :
    rebuiltClubs.InForce (.ofColumn .addColumn "clubs" "city")
      (.createTable clubs :: rebuildStatements clubs ["id", "captain"]) := by
  have hw : rebuiltClubs.IsWellNamed := by
    constructor
    case tables => decide
    case accessors => simp [values_rebuiltClubs, clubs, Column.plain]
    all_goals
      simp only [values_rebuiltClubs, List.mem_singleton, forall_eq]
      decide
  refine (MigrationSet.inForce_iff_of_covered hw rfl plan_rebuiltClubs rfl).mpr ?_
  rintro ⟨-, t, c, ht, -, hlost⟩
  obtain rfl : clubs = t := Option.some.inj ht
  rcases hlost with ⟨-, hno⟩ | ⟨hkind, -⟩
  · exact absurd hno (by decide)
  · exact absurd hkind (by decide)

end Tabula
