/-
# A plan reaches the columns of its target

While the statements of a plan run, the columns of a table are known at every point: a table that
is still to be created is not there, and any other has the columns of its target, less those that
pending migrations add.  A column that was part of a CREATE TABLE of the plan is not missing, even
if a migration that would add it is still to come, since that migration is covered.

* `MigrationSet.Tracks` is the invariant.
* `runAll_of_does` is that a deed keeps it, and that its statements do not fail.
* `columns_of_compile` is the result for a whole plan.
-/
import Tabula.Proofs.Migration.Catalog

namespace Tabula

open Tabula.Schema

/-! ## 1. What is asked of a target -/

/-- Columns have distinct names, and keys and indexes are over columns. -/
structure Schema.Table.IsSound (t : Table) : Prop where
  creatable : t.IsCreatable
  indexes : ∀ i ∈ t.indexes, ∀ c ∈ i.columns, c.1 ∈ t.columnNames

/-- All indexes of a sound table are over its columns. -/
theorem Schema.Table.IsSound.of_mem_allIndexes {t : Table} {i : Index} (ht : t.IsSound)
    (hi : i ∈ t.allIndexes) : ∀ c ∈ i.columns, c.1 ∈ t.columnNames := by
  rcases Table.mem_allIndexes_cases hi with hi | ⟨c, hc, -, rfl⟩
  · exact ht.indexes i hi
  · simpa [Table.columnIndex, Index.single] using Table.mem_columnNames_of_mem hc

/-- So is the index that a migration asks for. -/
theorem Schema.Table.IsSound.of_index {m : Migration} {t : Table} {i : Index} (ht : t.IsSound)
    (hi : m.index t = .ok i) : ∀ c ∈ i.columns, c.1 ∈ t.columnNames := by
  rcases index_eq_ok hi with hi | ⟨c, hc, rfl⟩
  · exact ht.indexes i hi
  · split <;>
      simpa [Table.columnIndex, Table.uniqueIndex, Index.single] using
        Table.mem_columnNames_of_mem hc

namespace MigrationSet

/-- A table of the target is known by its name, and temporary names are not in use. -/
structure Separates (set : MigrationSet) (t : Table) : Prop where
  mem : t ∈ set.target.values
  distinct : (set.target.values.map (·.name)).Nodup
  temporary : ∀ u ∈ set.target.values,
    u.name ≠ temporaryName t.name ∧ t.name ≠ temporaryName u.name

/-- Migrations agree about the columns of a table: each column is added once, the table is created
at most once, and it is neither dropped nor copied.  None says which columns there were before. -/
structure Settles (set : MigrationSet) (t : Table) (ms : List Migration) : Prop where
  addedOnce : (set.addedNames t ms).Nodup
  createdOnce : ms.countP (set.isCreation t) ≤ 1
  notDropped : ∀ m ∈ ms, m.kind = .dropTable → m.table ≠ t.name
  notCopied : ∀ m ∈ ms, m.kind = .copyTable → set.concerns t m = false
  noPrevious : ∀ m ∈ ms, set.concerns t m = true → m.extras.get? Migration.previousColumns = none

variable {set : MigrationSet} {t : Table} {m : Migration} {ms rest : List Migration}

theorem Settles.tail (h : set.Settles t (m :: rest)) : set.Settles t rest where
  addedOnce := h.addedOnce.sublist ((List.sublist_cons_self m rest).filterMap _)
  createdOnce := le_trans ((List.sublist_cons_self m rest).countP_le) h.createdOnce
  notDropped m' hm' := h.notDropped m' (List.mem_cons_of_mem _ hm')
  notCopied m' hm' := h.notCopied m' (List.mem_cons_of_mem _ hm')
  noPrevious m' hm' := h.noPrevious m' (List.mem_cons_of_mem _ hm')

/-- It does not depend on the order of the migrations. -/
theorem Settles.perm {ms' : List Migration} (h : set.Settles t ms) (hp : ms'.Perm ms) :
    set.Settles t ms' where
  addedOnce := (hp.filterMap _).nodup_iff.mpr h.addedOnce
  createdOnce := (hp.countP_eq _).le.trans h.createdOnce
  notDropped m hm := h.notDropped m (hp.mem_iff.mp hm)
  notCopied m hm := h.notCopied m (hp.mem_iff.mp hm)
  noPrevious m hm := h.noPrevious m (hp.mem_iff.mp hm)

/-- A created table is not created again. -/
theorem Settles.creates_eq_false (h : set.Settles t (m :: rest)) (hm : set.isCreation t m = true) :
    set.creates t rest = false := by
  have hcount := h.createdOnce
  rw [List.countP_cons_of_pos hm] at hcount
  have hzero : rest.countP (set.isCreation t) = 0 := by omega
  simpa [creates] using List.countP_eq_zero.mp hzero

/-! ## 2. The invariant -/

/-- The columns that a table has while migrations are to come: not those that these will add, unless
they will not because the table was created with them. -/
def present (set : MigrationSet) (t : Table) (pending : List Migration) (p : Progress) :
    Finset String :=
  t.columnNames.toFinset.filter fun x =>
    ¬(x ∈ set.addedNames t pending ∧ (t.name ∈ p.created → p.isDeferred t.name x = true))

/-- **What is known of the columns of a table while migrations are to come.**  If it was created,
then without those of the columns still to be added that carry no constraint. -/
structure Tracks (set : MigrationSet) (t : Table) (pending : List Migration) (p : Progress)
    (cat : Catalog) : Prop where
  deferred : t.name ∈ p.created → ∀ c ∈ t.columns, c.name ∈ set.addedNames t pending →
    (p.isDeferred t.name c.name = true ↔ t.isConstrained c = false)
  fresh : set.creates t pending = true → t.name ∉ p.created
  columns : cat t.name = if set.creates t pending then none else some (set.present t pending p)
  temporary : cat (temporaryName t.name) = none

/-- The tables whose columns are followed. -/
def watched (t : Table) : List String := [t.name, temporaryName t.name]

section Steps

variable {p p' : Progress} {cat cat' : Catalog} {ds : List Ddl} {s : Shape}

/-- A step that changes nothing that the invariant speaks of keeps it. -/
theorem Tracks.of_same (h : set.Tracks t (m :: rest) p cat)
    (hadded : set.addedNames t (m :: rest) = set.addedNames t rest)
    (hcreates : set.creates t (m :: rest) = set.creates t rest)
    (hcreated : t.name ∈ p'.created ↔ t.name ∈ p.created)
    (hdeferred : ∀ x, p'.isDeferred t.name x = p.isDeferred t.name x)
    (htable : cat' t.name = cat t.name) (htemp : cat' (temporaryName t.name) = none) :
    set.Tracks t rest p' cat' where
  deferred := by
    intro hp c hc hadd
    rw [hdeferred]
    exact h.deferred (hcreated.mp hp) c hc (hadded ▸ hadd)
  fresh := by
    rw [hcreated, ← hcreates]
    exact h.fresh
  columns := by
    have hpresent : set.present t rest p' = set.present t (m :: rest) p := by
      simp only [present, hadded, hcreated, hdeferred]
    rw [htable, h.columns, hcreates, hpresent]
  temporary := htemp

/-- Keys are over columns that are not deferred, and so are the indexes that are left. -/
theorem IsShape.isSound (h : set.IsShape t ms s) (ht : t.IsSound) : s.table.IsSound := by
  obtain ⟨⟨hnodup, hprimary, hforeign⟩, hindexes⟩ := ht
  have hkept : ∀ x ∈ t.columnNames, (t.inPrimaryKey x || t.inForeignKey x) = true →
      x ∈ s.table.columnNames := by
    intro x hx hkey
    rw [h.table, Table.mem_columnNames_without]
    refine ⟨hx, fun hdef => ?_⟩
    obtain ⟨-, c, -, rfl, hcon⟩ := (h.deferred x).mp hdef
    rw [Table.isConstrained, Bool.or_assoc, hkey, Bool.or_true] at hcon
    exact Bool.noConfusion hcon
  refine ⟨⟨?_, fun x hx => ?_, fun k hk x hx => ?_⟩, fun i hi c hc => ?_⟩
  · rw [h.table, Table.columnNames_without]
    exact hnodup.filter _
  · rw [h.table, Table.primaryKey_without] at hx
    exact hkept x (hprimary x hx) (by simp [Table.inPrimaryKey, hx])
  · rw [h.table, Table.foreignKeys_without] at hk
    refine hkept x (hforeign k hk x hx) ?_
    have hany : t.inForeignKey x = true := by
      simp only [Table.inForeignKey, List.any_eq_true]
      exact ⟨k, hk, by simpa using hx⟩
    simp [hany]
  · rw [h.table, Table.mem_indexes_without] at hi
    rw [h.table, Table.mem_columnNames_without]
    exact ⟨hindexes i hi.1 c hc, hi.2 c hc⟩

/-- **A table in its shape has the columns that are not deferred.** -/
theorem tracks_of_shape (h : set.IsShape t rest s) (ht : t.columnNames.Nodup)
    (hcreates : set.creates t rest = false)
    (htable : cat' t.name = some s.table.columnNames.toFinset)
    (htemp : cat' (temporaryName t.name) = none) :
    set.Tracks t rest ((p.defer t.name s.deferred).markCreated t.name) cat' where
  deferred := by
    intro _ c hc hadd
    simp only [Progress.isDeferred_markCreated, Progress.isDeferred_defer_self,
      List.contains_iff_mem, h.deferred]
    constructor
    · rintro ⟨-, c', hc', hname, hcon⟩
      obtain rfl : c' = c := List.inj_on_of_nodup_map ht hc' hc hname
      exact hcon
    · exact fun hcon => ⟨h.added ▸ hadd, c, hc, rfl, hcon⟩
  fresh := by simp [hcreates]
  columns := by
    rw [htable, hcreates, if_neg Bool.false_ne_true]
    congr 1
    ext x
    have hadd : x ∈ s.deferred → x ∈ set.addedNames t rest :=
      fun hx => h.added ▸ ((h.deferred x).mp hx).1
    simp only [present, h.table, List.mem_toFinset, Table.mem_columnNames_without,
      Finset.mem_filter, Progress.mem_created_markCreated, Progress.isDeferred_markCreated,
      Progress.isDeferred_defer_self, List.contains_iff_mem, true_or, true_implies]
    exact and_congr_right fun _ => not_congr ⟨fun hx => ⟨hadd hx, hx⟩, fun hx => hx.2⟩
  temporary := htemp

/-! ## 3. Steps -/

/-- A covered migration would add nothing: the column that it names is there already. -/
theorem tracks_of_covered (hsep : set.Separates t) (h : set.Tracks t (m :: rest) p cat)
    (hm : p.Covered set m) : set.Tracks t rest p cat := by
  have hcreates : m.kind ≠ .createTable := by
    cases hm with
    | column adds => exact fun hk => by rw [hk] at adds; exact Bool.noConfusion adds
    | index kind | keys kind => simp [kind]
  have hsame : set.addedNames t (m :: rest) = set.addedNames t rest →
      set.Tracks t rest p cat := fun hadd =>
    h.of_same hadd (creates_cons_of_kind hcreates) Iff.rfl (fun _ => rfl) rfl h.temporary
  cases hm with
  | index kind | keys kind => exact hsame (addedNames_cons_of_kind (by rw [kind]; rfl))
  | @column u c adds table created names constrained kept =>
    cases hc : set.concerns t m with
    | false => exact hsame (addedNames_cons_of_not_concerns hc)
    | true =>
      obtain rfl : u = t := eq_of_concerns hsep.distinct hsep.mem hc table
      have hadd : set.addedNames u (m :: rest) = c.name :: set.addedNames u rest :=
        addedNames_cons_of_names adds table names
      -- The column is pending, and yet it is there, since it was not deferred.
      have hpresent : set.present u rest p = set.present u (m :: rest) p := by
        refine Finset.filter_congr fun x _ => not_congr ?_
        rw [hadd, List.mem_cons]
        refine and_congr_left fun hdef => (or_iff_right ?_).symm
        rintro rfl
        exact absurd (hdef created) (by simp [kept])
      exact {
        deferred := fun hp c' hc' hmem =>
          h.deferred hp c' hc' (hadd ▸ List.mem_cons_of_mem _ hmem)
        fresh := (creates_cons_of_kind hcreates).symm ▸ h.fresh
        columns := by rw [h.columns, creates_cons_of_kind hcreates, hpresent]
        temporary := h.temporary }

/-- A dropped table is another one. -/
theorem runAll_dropTable (hset : set.Settles t (m :: rest)) (hk : m.kind = .dropTable)
    (htr : set.Tracks t (m :: rest) p cat) :
    ∃ cat', cat.runAll (watched t) [.dropTable m.table] = some cat' ∧
      set.Tracks t rest p cat' := by
  have hne : m.table ≠ t.name := hset.notDropped m List.mem_cons_self hk
  have hsame : ∀ cat' : Catalog, cat' t.name = cat t.name → cat' (temporaryName t.name) = none →
      set.Tracks t rest p cat' := fun cat' =>
    htr.of_same (addedNames_cons_of_kind (by rw [hk]; rfl)) (creates_cons_of_kind (by simp [hk]))
      Iff.rfl fun _ => rfl
  by_cases htemp : m.table = temporaryName t.name
  · refine ⟨cat.set m.table none, ?_, hsame _ (Catalog.set_of_ne hne.symm) ?_⟩
    · have hwatched : m.table ∈ watched t := by simp [watched, htemp]
      exact Catalog.runAll_cons_of_run ⟨m.table, List.mem_singleton_self _, hwatched⟩ rfl
    · rw [← htemp, Catalog.set_self]
  · refine ⟨cat, ?_, hsame cat rfl htr.temporary⟩
    refine Catalog.runAll_of_untouched fun d hd x hx => ?_
    obtain rfl := List.mem_singleton.mp hd
    obtain rfl := List.mem_singleton.mp hx
    simp [watched, hne, htemp]

/-- A deed about another table. -/
theorem runAll_of_not_concerns (hsep : set.Separates t) (hc : set.concerns t m = false)
    (hk : m.kind ≠ .dropTable) (htr : set.Tracks t (m :: rest) p cat)
    (h : m.Does set rest p ds p') :
    cat.runAll (watched t) ds = some cat ∧ set.Tracks t rest p' cat := by
  obtain ⟨u, hu, htables, hprogress⟩ := about_of_does h hk
  have hne : u.name ≠ t.name := ne_of_not_concerns hc hu
  obtain ⟨htemp, htemp'⟩ := hsep.temporary u (mem_of_table? hu)
  refine ⟨Catalog.runAll_of_untouched fun d hd x hx => ?_, ?_⟩
  · rcases htables d hd x hx with rfl | rfl
    · simp [watched, hne, htemp]
    · simp [watched, htemp'.symm, temporaryName_injective.ne hne]
  · obtain ⟨hcreated, hdeferred⟩ := hprogress t.name hne.symm
    exact htr.of_same (addedNames_cons_of_not_concerns hc) (creates_cons_of_not_concerns hc)
      hcreated hdeferred rfl htr.temporary

/-- The table is created. -/
theorem runAll_create (hsound : t.IsSound) (hset : set.Settles t (m :: rest))
    (hm : set.isCreation t m = true) (hs : set.shape t rest = .ok s)
    (htr : set.Tracks t (m :: rest) p cat) :
    ∃ cat', cat.runAll (watched t) (createStatements s.table) = some cat' ∧
      set.Tracks t rest ((p.defer t.name s.deferred).markCreated t.name) cat' := by
  have hshape : set.IsShape t rest s := shape_eq_ok hsound.creatable.1 hs
  have hname : s.table.name = t.name := name_of_shape hs
  have habsent : cat s.table.name = none := by
    rw [hname, htr.columns, if_pos (by simp [creates, hm])]
  have hne : temporaryName t.name ≠ s.table.name := by rw [hname]; exact temporaryName_ne _
  refine ⟨_, Catalog.runAll_createStatements (by simp [watched, hname]) habsent
    (hshape.isSound hsound).creatable (hshape.isSound hsound).indexes, ?_⟩
  refine tracks_of_shape hshape hsound.creatable.1 (hset.creates_eq_false hm) ?_ ?_
  · rw [← hname, Catalog.set_self]
  · rw [Catalog.set_of_ne hne, htr.temporary]

/-- The table is rebuilt. -/
theorem runAll_rebuild {copied : List String} (hsound : t.IsSound)
    (hset : set.Settles t (m :: rest)) (hasc : Migration.Ascending (m :: rest))
    (hk : m.kind.rebuilds = true) (hm : set.concerns t m = true)
    (hs : set.shape t rest = .ok s) (hcopied : m.copiedColumns s = .ok copied)
    (htr : set.Tracks t (m :: rest) p cat) :
    ∃ cat', cat.runAll (watched t) (rebuildStatements s.table copied) = some cat' ∧
      set.Tracks t rest ((p.defer t.name s.deferred).markCreated t.name) cat' := by
  have hshape : set.IsShape t rest s := shape_eq_ok hsound.creatable.1 hs
  have hname : s.table.name = t.name := name_of_shape hs
  have hpos : 0 < m.kind.priority := Migration.Kind.priority_pos_of_rebuilds hk
  have hcreates : set.creates t (m :: rest) = false := creates_eq_false hasc hpos
  have htable : cat s.table.name = some (set.present t (m :: rest) p) := by
    rw [hname, htr.columns, hcreates, if_neg Bool.false_ne_true]
  have hcopies : copied = s.table.columnNames.filter fun x => !s.added.contains x := by
    unfold Migration.copiedColumns at hcopied
    rw [hset.noPrevious m List.mem_cons_self hm] at hcopied
    exact (Except.ok.inj hcopied).symm
  -- A column that is copied is not pending, so the table had it.
  have hold : ∀ x ∈ copied, x ∈ set.present t (m :: rest) p := by
    intro x hx
    obtain ⟨hx, hadd⟩ : x ∈ s.table.columnNames ∧ x ∉ s.added := by simpa [hcopies] using hx
    rw [hshape.table, Table.mem_columnNames_without] at hx
    rw [hshape.added,
      ← addedNames_cons_of_kind (Migration.Kind.addsColumn_of_rebuilds hk)] at hadd
    simp [present, hx.1, hadd]
  have hwatched : s.table.name ∈ watched t ∧ temporaryName s.table.name ∈ watched t := by
    simp [watched, hname]
  obtain ⟨cat', hrun, htable', htemp'⟩ := Catalog.runAll_rebuildStatements
    hwatched.1 hwatched.2 (temporaryName_ne _).symm htable (by rw [hname]; exact htr.temporary)
    (hshape.isSound hsound).creatable (fun i hi => (hshape.isSound hsound).of_mem_allIndexes hi)
    (fun x hx => (List.mem_filter.mp (hcopies ▸ hx)).1) hold
  rw [hname] at htable' htemp'
  refine ⟨cat', hrun, tracks_of_shape hshape hsound.creatable.1 ?_ htable' htemp'⟩
  rw [← creates_cons_of_kind (Migration.Kind.priority_pos.mp hpos), hcreates]

/-- A column is added. -/
theorem runAll_addColumn {c : Column} (hset : set.Settles t (m :: rest))
    (hasc : Migration.Ascending (m :: rest)) (hk : m.kind.addsColumn = true)
    (ht : set.table? m.table = some t) (hc : m.Names t c)
    (needed : t.name ∈ p.created → t.isConstrained c = true → p.isDeferred t.name c.name = true)
    (htr : set.Tracks t (m :: rest) p cat) :
    ∃ cat', cat.runAll (watched t) (addColumnStatements t c (m.kind = .addUniqueColumn)) =
      some cat' ∧ set.Tracks t rest p cat' := by
  have hadd : set.addedNames t (m :: rest) = c.name :: set.addedNames t rest :=
    addedNames_cons_of_names hk ht hc
  have hpos : 0 < m.kind.priority := by
    rw [Migration.Kind.priority_of_addsColumn hk]
    decide
  have hcreates : set.creates t (m :: rest) = false := creates_eq_false hasc hpos
  have hcreates' : set.creates t rest = false := by
    rw [← creates_cons_of_kind (Migration.Kind.priority_pos.mp hpos), hcreates]
  have htable : cat t.name = some (set.present t (m :: rest) p) := by
    rw [htr.columns, hcreates, if_neg Bool.false_ne_true]
  have hnodup : c.name ∉ set.addedNames t rest :=
    (List.nodup_cons.mp (hadd ▸ hset.addedOnce)).1
  have hdeferred : t.name ∈ p.created → p.isDeferred t.name c.name = true := by
    intro hp
    have hiff := htr.deferred hp c hc.mem (by simp [hadd])
    cases hcon : t.isConstrained c with
    | true => exact needed hp hcon
    | false => exact hiff.mpr hcon
  have hmissing : c.name ∉ set.present t (m :: rest) p :=
    fun hmem => (Finset.mem_filter.mp hmem).2 ⟨by simp [hadd], hdeferred⟩
  refine ⟨_, Catalog.runAll_addColumnStatements _ (by simp [watched]) htable hmissing, ?_⟩
  refine ⟨fun hp c' hc' hmem => ?_, by simp [hcreates'], ?_, ?_⟩
  · exact htr.deferred hp c' hc' (hadd ▸ List.mem_cons_of_mem _ hmem)
  · rw [Catalog.set_self, hcreates', if_neg Bool.false_ne_true]
    congr 1
    ext x
    by_cases hx : x = c.name
    · subst hx
      simp [present, hnodup, Table.mem_columnNames_of_mem hc.mem]
    · simp [present, hadd, hx]
  · rw [Catalog.set_of_ne (temporaryName_ne _), htr.temporary]

/-- An index is created, when all columns are there. -/
theorem runAll_createIndex {i : Index} (hasc : Migration.Ascending (m :: rest))
    (hprio : m.kind.priority = 30) (hi : ∀ c ∈ i.columns, c.1 ∈ t.columnNames)
    (htr : set.Tracks t (m :: rest) p cat) :
    cat.runAll (watched t) [.createIndex t.name i] = some cat ∧ set.Tracks t rest p cat := by
  have hpos : 0 < m.kind.priority := by omega
  have hcreates : set.creates t (m :: rest) = false := creates_eq_false hasc hpos
  have hadd : set.addedNames t (m :: rest) = [] := addedNames_eq_nil hasc (by omega)
  have htable : cat t.name = some (set.present t (m :: rest) p) := by
    rw [htr.columns, hcreates, if_neg Bool.false_ne_true]
  refine ⟨Catalog.runAll_createIndexes [i] htable fun j hj c hc => ?_, ?_⟩
  · obtain rfl := List.mem_singleton.mp hj
    simpa [present, hadd] using hi c hc
  · exact htr.of_same (addedNames_cons_of_kind (Migration.Kind.of_priority_eq_thirty hprio).2)
      (creates_cons_of_kind (Migration.Kind.priority_pos.mp hpos)) Iff.rfl (fun _ => rfl) rfl
      htr.temporary

/-- **A deed runs and keeps the invariant.** -/
theorem runAll_of_does (hsep : set.Separates t) (hsound : t.IsSound)
    (hset : set.Settles t (m :: rest)) (hasc : Migration.Ascending (m :: rest))
    (htr : set.Tracks t (m :: rest) p cat) (h : m.Does set rest p ds p') :
    ∃ cat', cat.runAll (watched t) ds = some cat' ∧ set.Tracks t rest p' cat' := by
  by_cases hk : m.kind = .dropTable
  · obtain ⟨rfl, rfl⟩ := h.of_dropTable hk
    exact runAll_dropTable hset hk htr
  cases hc : set.concerns t m with
  | false => exact ⟨cat, runAll_of_not_concerns hsep hc hk htr h⟩
  | true =>
    cases h with
    | drop kind => exact absurd kind hk
    | create kind table shape =>
      obtain rfl := eq_of_concerns hsep.distinct hsep.mem hc table
      exact runAll_create hsound hset (by simp [isCreation, kind, hc]) shape htr
    | addColumn adds table names needed =>
      obtain rfl := eq_of_concerns hsep.distinct hsep.mem hc table
      exact runAll_addColumn hset hasc adds table names needed htr
    | addIndex kind table index =>
      obtain rfl := eq_of_concerns hsep.distinct hsep.mem hc table
      have hprio : m.kind.priority = 30 := by rcases kind with kind | kind <;> rw [kind] <;> rfl
      exact ⟨cat, runAll_createIndex hasc hprio (hsound.of_index index) htr⟩
    | @makeUnique u c kind table names =>
      obtain rfl := eq_of_concerns hsep.distinct hsep.mem hc table
      have hi : ∀ x ∈ (u.uniqueIndex c.name).columns, x.1 ∈ u.columnNames := by
        simpa [Table.uniqueIndex, Index.single] using Table.mem_columnNames_of_mem names.mem
      exact ⟨cat, runAll_createIndex hasc (by rw [kind]; rfl) hi htr⟩
    | copy kind =>
      rw [hset.notCopied m List.mem_cons_self kind] at hc
      exact Bool.noConfusion hc
    | rebuild kind table shape copies =>
      obtain rfl := eq_of_concerns hsep.distinct hsep.mem hc table
      exact runAll_rebuild hsound hset hasc kind hc shape copies htr

end Steps

/-! ## 4. Plans -/

/-- **The statements of a plan run, and at its end nothing is missing.** -/
theorem runAll_of_planSteps (hsep : set.Separates t) (hsound : t.IsSound) {steps : List PlanStep}
    {p : Progress} {cat : Catalog} (hset : set.Settles t ms) (hasc : Migration.Ascending ms)
    (htr : set.Tracks t ms p cat) (h : set.planSteps ms p = .ok steps) :
    ∃ cat' p', cat.runAll (watched t) (steps.flatMap PlanStep.statements) = some cat' ∧
      set.Tracks t [] p' cat' := by
  induction ms generalizing steps p cat with
  | nil =>
    cases h
    exact ⟨cat, p, rfl, htr⟩
  | cons m rest ih =>
    obtain ⟨step, p₁, after, hstep, hafter, rfl⟩ := planSteps_cons h
    obtain ⟨cat₁, hrun, htr₁⟩ : ∃ cat₁, cat.runAll (watched t) step.statements = some cat₁ ∧
        set.Tracks t rest p₁ cat₁ := by
      rcases planStep_cases hstep with ⟨rfl, rfl, hcovered⟩ | ⟨deed, rfl, hdoes⟩
      · exact ⟨cat, rfl, tracks_of_covered hsep htr hcovered⟩
      · exact runAll_of_does hsep hsound hset hasc htr hdoes
    obtain ⟨cat', p', hrun', htr'⟩ := ih hset.tail hasc.tail htr₁ hafter
    refine ⟨cat', p', ?_, htr'⟩
    rw [List.flatMap_cons, Catalog.runAll_append, hrun, Option.bind_some, hrun']

/-- **A plan reaches the columns of its target.**  Start without the table if the migrations create
it, and otherwise with the columns that they do not add.  Then no statement fails on the table or on
its temporary name: no column is added that is there, no rows are copied and no index is created
over columns that are not there.  At the end the table has the columns of its target. -/
theorem columns_of_compile {ds : List Ddl} {cat : Catalog} (hms : set.migrations = .ok ms)
    (hds : set.compile = .ok ds) (hsep : set.Separates t) (hsound : t.IsSound)
    (hset : set.Settles t ms)
    (htable : cat t.name = if set.creates t ms then none
      else some (t.columnNames.toFinset.filter fun x => x ∉ set.addedNames t ms))
    (htemp : cat (temporaryName t.name) = none) :
    ∃ cat', cat.runAll (watched t) ds = some cat' ∧
      cat' t.name = some t.columnNames.toFinset ∧ cat' (temporaryName t.name) = none := by
  obtain ⟨steps, hplan, hds⟩ := bind_eq_ok.mp hds
  cases hds
  rw [plan_eq_planSteps hms] at hplan
  have hperm : (Migration.sort ms).Perm ms := Migration.sort_perm ms
  have hadded : ∀ x, x ∈ set.addedNames t (Migration.sort ms) ↔ x ∈ set.addedNames t ms :=
    fun x => (hperm.filterMap _).mem_iff
  have hstart : set.Tracks t (Migration.sort ms) .start cat := by
    refine ⟨fun hp => absurd hp (by simp [Progress.start]), by simp [Progress.start], ?_, htemp⟩
    rw [htable, creates, creates, hperm.any_eq]
    simp [present, Progress.start, hadded]
  obtain ⟨cat', p', hrun, htr⟩ := runAll_of_planSteps hsep hsound (hset.perm hperm)
    (Migration.ascending_sort ms) hstart hplan
  refine ⟨cat', hrun, ?_, htr.temporary⟩
  rw [htr.columns]
  simp [creates, present, addedNames]

end MigrationSet

/-! ## 5. Non-vacuity -/

/-- A table with a key to another table, an indexed column and a plain one. -/
def members : Table :=
  { name := "members"
    columns := [.plain "id" .integer, { Column.plain "team" .integer with indexed := true },
      .plain "nick" .text]
    primaryKey := ["id"]
    foreignKeys := [.single "team" "teams" "id"]
    indexes := [] }

/-- The table is created, which covers one of its columns, and rebuilt before it gets the other. -/
def newMembers : MigrationSet :=
  .ofMigrations [.ofTable .createTable "members", .ofTable .updateForeignKeys "members",
    .ofColumn .addColumn "members" "nick", .ofColumn .addColumn "members" "team"] [members] 1

theorem values_newMembers : newMembers.target.values = [members] := rfl

theorem isOk_compile_newMembers : newMembers.compile.isOk = true := by
  rw [MigrationSet.compile, plan_eq_planSteps rfl, Migration.sort_eq_self (by decide)]
  rfl

theorem columns_of_compile_newMembers :
    ∃ ds cat', newMembers.compile = .ok ds ∧
      Catalog.runAll ["members", "temp_members"] (fun _ => none) ds = some cat' ∧
      cat' "members" = some {"id", "team", "nick"} ∧ cat' "temp_members" = none := by
  obtain ⟨ds, hds⟩ : ∃ ds, newMembers.compile = .ok ds := by
    have hok := isOk_compile_newMembers
    cases h : newMembers.compile with
    | ok ds => exact ⟨ds, rfl⟩
    | error e => simp [h, Except.isOk, Except.toBool] at hok
  have hsep : newMembers.Separates members := by
    refine ⟨by simp [values_newMembers], by simp [values_newMembers], ?_⟩
    simp only [values_newMembers, List.mem_singleton]
    rintro u rfl
    decide
  have hset : newMembers.Settles members
      [.ofTable .createTable "members", .ofTable .updateForeignKeys "members",
        .ofColumn .addColumn "members" "nick", .ofColumn .addColumn "members" "team"] :=
    ⟨by decide, by decide, by decide, by decide, by decide⟩
  have hsound : members.IsSound := ⟨by decide, by decide⟩
  have hrun : ∃ cat', Catalog.runAll ["members", "temp_members"] (fun _ => none) ds = some cat' ∧
      cat' "members" = some members.columnNames.toFinset ∧ cat' "temp_members" = none :=
    MigrationSet.columns_of_compile rfl hds hsep hsound hset (by decide) rfl
  obtain ⟨cat', h⟩ := hrun
  exact ⟨ds, cat', hds, h⟩

end Tabula
