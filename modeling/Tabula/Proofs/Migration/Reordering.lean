/-
# The order in which migrations are listed

Migrations are sorted before they are planned, so the order in which a set lists them should not
matter.  It would be enough if only equal migrations tied; but a missing column name counts as an
empty one, so that two migrations that differ in this alone tie, and the sort leaves them in the
order in which they were listed.

What saves the plan is that such a difference is never seen.  A kind of migration that uses its
column fails without one (`column_isSome_of_planSteps`), so that a plan that succeeds holds no such
tie; and the other kinds do not look (`Migration.Alike`).

* `map_spelled_sort`: listed in any order, the sorted migrations are the same up to spelling.
* `statements_planSteps`: migrations that are alike have the same statements.
* `compile_eq_ok_iff_of_reorders`: the order of migrations, and that of the diffs of a table, is of
  no consequence.
-/
import Mathlib.Data.List.Perm.Basic
import Tabula.Proofs.Migration.KnownColumns

namespace Tabula

open Std Tabula.Schema

/-! ## 1. Ties -/

namespace Migration

theorem Kind.word_injective : Function.Injective Kind.word := by
  intro a b h
  have hlookup := Kind.lookup_word a
  rw [h, Kind.lookup_word b] at hlookup
  exact (Option.some.inj hlookup).symm

instance : LawfulEqCmp comparePairs where
  eq_of_compare h := by
    obtain ⟨hfst, hsnd⟩ := compareLex_eq_eq.mp h
    exact Prod.ext (LawfulEqCmp.eq_of_compare hfst) (LawfulEqCmp.eq_of_compare hsnd)

/-- The migration with its column name spelled out: a missing one counts as an empty one. -/
def spelled (m : Migration) : Migration := { m with column := some (m.column.getD "") }

variable {a b : Migration} {ms ms' : List Migration}

theorem compare_spelled : compare a.spelled b.spelled = compare a b := rfl

/-- The two names to sort by are those of the table and of the column, in one order or the other. -/
theorem names_of_sortNames (hk : a.kind = b.kind) (h : a.sortNames = b.sortNames) :
    a.table = b.table ∧ a.column.getD "" = b.column.getD "" := by
  simp only [sortNames, hk] at h
  split at h
  · exact Prod.mk.inj h
  · exact (Prod.mk.inj h).symm

/-- **Migrations tie exactly if they are the same once their column names are spelled out.** -/
theorem compare_eq_iff : compare a b = .eq ↔ a.spelled = b.spelled := by
  constructor
  · intro h
    obtain ⟨-, h⟩ := compareLex_eq_eq.mp h
    obtain ⟨hnames, h⟩ := compareLex_eq_eq.mp h
    obtain ⟨hword, hextras⟩ := compareLex_eq_eq.mp h
    have hkind : a.kind = b.kind := Kind.word_injective (LawfulEqCmp.eq_of_compare hword)
    obtain ⟨htable, hcolumn⟩ := names_of_sortNames hkind (LawfulEqCmp.eq_of_compare hnames)
    have hentries : a.extras.entries = b.extras.entries := LawfulEqCmp.eq_of_compare hextras
    have hdict : a.extras = b.extras := by
      cases ha : a.extras
      cases hb : b.extras
      simpa [ha, hb] using hentries
    simp [spelled, hkind, htable, hcolumn, hdict]
  · intro h
    rw [← compare_spelled, h]
    exact ReflCmp.compare_self

/-- **Sorting determines the migrations up to the spelling of column names.** -/
theorem map_spelled_sort (h : ms.Perm ms') : (sort ms).map spelled = (sort ms').map spelled := by
  have hsorted : ∀ ms : List Migration,
      ((sort ms).map spelled).Pairwise fun a b => (compare a b).isLE := fun ms =>
    List.pairwise_map.mpr (pairwise_sort ms)
  refine List.Perm.eq_of_pairwise (fun a b ha hb hab hba => ?_) (hsorted ms) (hsorted ms') ?_
  · obtain ⟨a, -, rfl⟩ := List.mem_map.mp ha
    obtain ⟨b, -, rfl⟩ := List.mem_map.mp hb
    exact compare_eq_iff.mp (OrientedCmp.isLE_antisymm hab hba)
  · exact (((sort_perm ms).trans h).trans (sort_perm ms').symm).map spelled

/-! ## 2. Migrations that are alike -/

/-- Migrations that differ at most in a column name that neither of them uses. -/
structure Alike (a b : Migration) : Prop where
  kind : a.kind = b.kind
  table : a.table = b.table
  column : a.kind.usesColumn = true → a.column = b.column
  extras : a.extras = b.extras

theorem Alike.requireColumn (h : Alike a b) (hk : a.kind.usesColumn = true) :
    a.requireColumn = b.requireColumn := by
  simp only [Migration.requireColumn, h.kind, h.table, h.column hk]

/-- Migrations with one spelling are alike if neither leaves out a column name that it uses. -/
theorem alike_of_spelled (h : a.spelled = b.spelled)
    (ha : a.kind.usesColumn = true → a.column.isSome)
    (hb : b.kind.usesColumn = true → b.column.isSome) : Alike a b := by
  obtain ⟨hkind, htable, hcolumn, hextras⟩ := Migration.mk.inj h
  refine ⟨hkind, htable, fun hk => ?_, hextras⟩
  obtain ⟨x, hx⟩ := Option.isSome_iff_exists.mp (ha hk)
  obtain ⟨y, hy⟩ := Option.isSome_iff_exists.mp (hb (hkind ▸ hk))
  simpa [hx, hy] using hcolumn

end Migration

section Alike

variable {set set' : MigrationSet} {m m' : Migration} {ms ms' : List Migration} {t : Table}
  {p : Progress}

/-- Tables are looked up in the target. -/
theorem table_congr (hset : set.target = set'.target) (key : String) :
    set.table key = set'.table key := by
  simp only [MigrationSet.table, MigrationSet.table?, hset]

theorem addedColumns_congr (hset : set.target = set'.target)
    (h : List.Forall₂ Migration.Alike ms ms') :
    set.addedColumns t ms = set'.addedColumns t ms' := by
  induction h with
  | nil => rfl
  | @cons m m' ms ms' hm _ ih =>
    unfold MigrationSet.addedColumns
    rw [← hm.kind, ← hm.table, table_congr hset, ih]
    split
    case isTrue hk => rw [hm.requireColumn (Migration.Kind.usesColumn_of_addsColumn hk)]
    case isFalse => rfl

theorem shape_congr (hset : set.target = set'.target)
    (h : List.Forall₂ Migration.Alike ms ms') : set.shape t ms = set'.shape t ms' := by
  simp only [MigrationSet.shape, addedColumns_congr hset h]

theorem index_congr (hm : m.Alike m') (hk : m.kind.usesColumn = true) : m.index t = m'.index t := by
  simp only [Migration.index, hm.requireColumn hk, hm.kind]

theorem rebuild_congr (hm : m.Alike m') (s : Shape) : m.rebuild s = m'.rebuild s := by
  simp only [Migration.rebuild, Migration.copiedColumns, Migration.lostKeys, hm.extras]

theorem covers_congr (hset : set.target = set'.target) (hm : m.Alike m') :
    p.covers set m = p.covers set' m' := by
  unfold Progress.covers
  rw [← hm.kind, ← hm.table, table_congr hset]
  cases hk : m.kind with
  | addColumn | addUniqueColumn =>
    have hcolumn : m.requireColumn = m'.requireColumn := hm.requireColumn (by rw [hk]; rfl)
    simp only [hcolumn]
  | addUniqueIndex =>
    have hindex : ∀ t, m.index t = m'.index t := fun t => index_congr hm (by rw [hk]; rfl)
    simp only [hindex]
  | _ => rfl

theorem deed_congr (hset : set.target = set'.target) (hm : m.Alike m')
    (h : List.Forall₂ Migration.Alike ms ms') : m.deed set ms p = m'.deed set' ms' p := by
  unfold Migration.deed
  rw [← hm.kind, ← hm.table, table_congr hset]
  simp only [shape_congr hset h, rebuild_congr hm]
  cases hk : m.kind with
  | addColumn | addUniqueColumn | makeColumnUnique =>
    have hcolumn : m.requireColumn = m'.requireColumn := hm.requireColumn (by rw [hk]; rfl)
    simp only [hcolumn]
  | addIndex | addUniqueIndex =>
    have hindex : ∀ t, m.index t = m'.index t := fun t => index_congr hm (by rw [hk]; rfl)
    simp only [hindex]
  | _ => rfl

/-- The same is done about migrations that are alike. -/
theorem planStep_congr (hset : set.target = set'.target) (hm : m.Alike m')
    (h : List.Forall₂ Migration.Alike ms ms') :
    set'.planStep m' ms' p = (set.planStep m ms p).map fun r => (⟨m', r.1.action⟩, r.2) := by
  unfold MigrationSet.planStep
  rw [← covers_congr hset hm, ← deed_congr hset hm h]
  cases p.covers set m with
  | error e => rfl
  | ok covered =>
    cases covered with
    | true => rfl
    | false => cases m.deed set ms p <;> rfl

/-- A step puts its statements before those of the rest. -/
theorem map_statements_cons (s : PlanStep) (x : Except MigrationError (List PlanStep)) :
    (x >>= fun steps => pure (s :: steps)).map (List.flatMap PlanStep.statements) =
      (x.map (List.flatMap PlanStep.statements)).map (s.statements ++ ·) := by
  cases x <;> rfl

/-- **Migrations that are alike have the same statements.** -/
theorem statements_planSteps (hset : set.target = set'.target)
    (h : List.Forall₂ Migration.Alike ms ms') :
    (set'.planSteps ms' p).map (List.flatMap PlanStep.statements) =
      (set.planSteps ms p).map (List.flatMap PlanStep.statements) := by
  induction h generalizing p with
  | nil => rfl
  | @cons m m' ms ms' hm hms ih =>
    unfold MigrationSet.planSteps
    rw [planStep_congr hset hm hms]
    cases set.planStep m ms p with
    | error e => rfl
    | ok r =>
      calc
        _ = ((set'.planSteps ms' r.2).map (List.flatMap PlanStep.statements)).map
            (r.1.statements ++ ·) := map_statements_cons ⟨m', r.1.action⟩ _
        _ = ((set.planSteps ms r.2).map (List.flatMap PlanStep.statements)).map
            (r.1.statements ++ ·) := by rw [ih]
        _ = _ := (map_statements_cons r.1 _).symm

end Alike

/-! ## 3. Plans that succeed -/

/-- The migrations of a plan that succeeds name the columns that they use. -/
theorem column_isSome_of_planSteps {set : MigrationSet} {ms : List Migration} {p : Progress}
    {steps : List PlanStep} (h : set.planSteps ms p = .ok steps) :
    ∀ m ∈ ms, m.kind.usesColumn = true → m.column.isSome := by
  intro m hm hk
  obtain ⟨-, key, -, hkey, -⟩ := forall_mem_of_planSteps MigrationSet.resolves_of_planStep h m hm hk
  simp [hkey]

/-- If one order of migrations can be planned, then so can any other, with the same statements. -/
theorem statements_planSteps_sort {set set' : MigrationSet} {ms ms' : List Migration}
    {p : Progress} {ds : List Ddl} (hset : set.target = set'.target) (hp : ms.Perm ms')
    (h : (set.planSteps (Migration.sort ms) p).map (List.flatMap PlanStep.statements) = .ok ds) :
    (set'.planSteps (Migration.sort ms') p).map (List.flatMap PlanStep.statements) = .ok ds := by
  obtain ⟨steps, hsteps⟩ : ∃ steps, set.planSteps (Migration.sort ms) p = .ok steps := by
    cases hsteps : set.planSteps (Migration.sort ms) p with
    | ok steps => exact ⟨steps, rfl⟩
    | error e => simp [hsteps, Except.map] at h
  have hcolumns := column_isSome_of_planSteps hsteps
  have hcolumns' : ∀ m ∈ Migration.sort ms', m.kind.usesColumn = true → m.column.isSome := by
    intro m hm
    have hperm : (Migration.sort ms').Perm (Migration.sort ms) :=
      ((Migration.sort_perm ms').trans hp.symm).trans (Migration.sort_perm ms).symm
    exact hcolumns m (hperm.mem_iff.mp hm)
  have hspelled : List.Forall₂ (fun a b => a.spelled = b.spelled)
      (Migration.sort ms) (Migration.sort ms') := by
    have hmap := List.forall₂_eq_eq_eq ▸ Migration.map_spelled_sort hp
    simpa [List.forall₂_map_left_iff, List.forall₂_map_right_iff] using hmap
  rw [statements_planSteps hset, h]
  refine List.forall₂_iff_get.mpr ⟨hspelled.length_eq, fun i hi hi' => ?_⟩
  exact Migration.alike_of_spelled (hspelled.get hi hi') (hcolumns _ (List.get_mem ..))
    (hcolumns' _ (List.get_mem ..))

/-! ## 4. Sources in another order -/

/-- The same migrations in another order, or for each table the same diffs in another order. -/
inductive MigrationSource.Reorders : MigrationSource → MigrationSource → Prop
  | ordered {ms ms' : List Migration} (perm : ms.Perm ms') : Reorders (.ordered ms) (.ordered ms')
  | diffs {d d' : Dict (List SchemaDiff)}
      (perm : List.Forall₂ (fun e e' => e.1 = e'.1 ∧ e.2.Perm e'.2) d.entries d'.entries) :
      Reorders (.diffs d) (.diffs d')

theorem MigrationSource.Reorders.symm {s s' : MigrationSource} (h : s.Reorders s') :
    s'.Reorders s := by
  cases h with
  | ordered perm => exact .ordered perm.symm
  | diffs perm => exact .diffs (perm.flip.imp fun _ _ h => ⟨h.1.symm, h.2.symm⟩)

namespace MigrationSet

variable {set set' : MigrationSet} {ms : List Migration}

/-- Diffs in another order are turned into the same migrations in another order. -/
theorem exists_lower_of_perm (hset : set.target = set'.target) {d d' : Dict (List SchemaDiff)}
    (hd : List.Forall₂ (fun e e' => e.1 = e'.1 ∧ e.2.Perm e'.2) d.entries d'.entries)
    (h : set.lower d = .ok ms) : ∃ ms', set'.lower d' = .ok ms' ∧ ms.Perm ms' := by
  obtain ⟨lists, hlists, h⟩ := bind_eq_ok.mp h
  cases h
  have hperm : ∀ {es es' : List (String × List SchemaDiff)},
      List.Forall₂ (fun e e' => e.1 = e'.1 ∧ e.2.Perm e'.2) es es' →
      (es'.flatMap fun e => e.2.map fun d => (e.1, d)).Perm
        (es.flatMap fun e => e.2.map fun d => (e.1, d)) := by
    intro es es' hes
    induction hes with
    | nil => exact .refl _
    | cons he _ ih =>
      rw [List.flatMap_cons, List.flatMap_cons, he.1]
      exact (he.2.symm.map _).append ih
  have hmigrations : ∀ e : String × SchemaDiff, e.2.migrations set' e.1 = e.2.migrations set e.1 :=
    fun e => by simp only [SchemaDiff.migrations, table_congr hset]
  obtain ⟨lists', hlists', hp⟩ := List.perm_comp_forall₂ (hperm hd) (mapM_eq_ok_iff.mp hlists)
  refine ⟨lists'.flatten, bind_eq_ok.mpr ⟨lists', mapM_eq_ok_iff.mpr ?_, rfl⟩, hp.flatten.symm⟩
  exact hlists'.imp fun e _ he => (hmigrations e).trans he

/-- A source in another order holds the same migrations in another order. -/
theorem exists_migrations_of_reorders (hset : set.target = set'.target)
    (hs : set.source.Reorders set'.source) (h : set.migrations = .ok ms) :
    ∃ ms', set'.migrations = .ok ms' ∧ ms.Perm ms' := by
  unfold migrations at h ⊢
  generalize set.source = source, set'.source = source' at hs h ⊢
  cases hs with
  | ordered perm =>
    cases h
    exact ⟨_, rfl, perm⟩
  | diffs perm => exact exists_lower_of_perm hset perm h

/-- Half of the result: what can be compiled in one order can be compiled in any other. -/
theorem compile_of_reorders {ds : List Ddl} (hset : set.target = set'.target)
    (hs : set.source.Reorders set'.source) (h : set.compile = .ok ds) : set'.compile = .ok ds := by
  obtain ⟨steps, hplan, h⟩ := bind_eq_ok.mp h
  cases h
  obtain ⟨ms, hms, hsteps⟩ := bind_eq_ok.mp hplan
  obtain ⟨ms', hms', hperm⟩ := exists_migrations_of_reorders hset hs hms
  have hstatements := statements_planSteps_sort hset hperm
    (show (set.planSteps (Migration.sort ms) .start).map _ = .ok _ by rw [hsteps]; rfl)
  rw [compile, plan_eq_planSteps hms']
  exact hstatements

/-- **The order of a source is of no consequence.**  With its migrations listed in another order, or
the diffs of its tables, a set can be compiled exactly if it could before, and its statements are
the same. -/
theorem compile_eq_ok_iff_of_reorders {source : MigrationSource} {ds : List Ddl}
    (h : set.source.Reorders source) :
    { set with source := source }.compile = .ok ds ↔ set.compile = .ok ds :=
  ⟨compile_of_reorders rfl h.symm, compile_of_reorders rfl h⟩

end MigrationSet

/-! ## 5. Migrations that tie -/

/-- A table of one column. -/
def journal : Table := { Table.empty "journal" with columns := [.plain "id" .integer] }

/-- Two migrations that tie: the first leaves out its column name, the second gives an empty one. -/
def journalDefaults : MigrationSet :=
  .ofMigrations [.ofTable .changeDefault "journal", .ofColumn .changeDefault "journal" ""]
    [journal] 1

theorem compile_journalDefaults :
    journalDefaults.compile =
      .ok (rebuildStatements journal ["id"] ++ rebuildStatements journal ["id"]) := by
  rw [MigrationSet.compile, plan_eq_planSteps rfl, Migration.sort_eq_self (by decide)]
  rfl

/-- **Where the sort keeps the order of the list, the statements do not.** -/
theorem compile_swapped_journalDefaults :
    Migration.sort [.ofTable .changeDefault "journal", .ofColumn .changeDefault "journal" ""] ≠
      Migration.sort [.ofColumn .changeDefault "journal" "", .ofTable .changeDefault "journal"] ∧
    MigrationSet.compile { journalDefaults with
        source := .ordered
          [.ofColumn .changeDefault "journal" "", .ofTable .changeDefault "journal"] } =
      .ok (rebuildStatements journal ["id"] ++ rebuildStatements journal ["id"]) := by
  constructor
  · rw [Migration.sort_eq_self (by decide), Migration.sort_eq_self (by decide)]
    decide
  · have hreorders : journalDefaults.source.Reorders
        (.ordered [.ofColumn .changeDefault "journal" "", .ofTable .changeDefault "journal"]) :=
      .ordered (.swap ..)
    exact (MigrationSet.compile_eq_ok_iff_of_reorders hreorders).mpr compile_journalDefaults

end Tabula
