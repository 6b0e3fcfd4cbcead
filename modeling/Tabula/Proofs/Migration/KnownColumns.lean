/-
# Which column names are looked up

A migration that does not concern a whole table carries the name of a column, or of an index.  Most
kinds use it: they add that column or put an index on it, so that a plan that succeeds has looked it
up.  Two kinds rebuild the table for the sake of one of its columns, for a new default or for a new
foreign key.  They take the whole table from the target and never look at the name, so that a plan
succeeds whatever it is, and without one, too.

* `MigrationSet.Resolves`: the name of a migration is known in its table.
* `resolves_of_planStep`: a planned migration that uses its name carries a known one.
* `resolves_iff_of_compile`: the tables of a plan that succeeds are known, and so are all names but
  possibly those of the two kinds.
* `not_resolves_ghost`: those need not be known.
-/
import Tabula.Proofs.Migration.Moves

namespace Tabula

open Tabula.Schema

namespace Migration

/-- Whether a migration is about the column or the index that it names. -/
def Kind.usesColumn : Kind → Bool
  | addColumn => true
  | addUniqueColumn => true
  | addUniqueIndex => true
  | addIndex => true
  | makeColumnUnique => true
  | _ => false

theorem Kind.usesColumn_of_addsColumn {k : Kind} : k.addsColumn = true → k.usesColumn = true := by
  cases k <;> decide

/-- What rebuilds a table does not look at the column that it names. -/
theorem Kind.rebuilds_of_usesColumn {k : Kind} : k.usesColumn = true → k.rebuilds = false := by
  cases k <;> decide

/-- The kinds that neither concern a whole table nor use their column name. -/
theorem Kind.usesColumn_of_not_concernsTable {k : Kind} :
    k.concernsTable = false → k ≠ changeDefault → k ≠ addForeignKey → k.usesColumn = true := by
  cases k <;> decide

end Migration

namespace MigrationSet

/-- **The name that a migration carries is known in its table**: it is the name or the accessor of a
column, or, where an index is asked for, the name of a declared one. -/
def Resolves (set : MigrationSet) (m : Migration) : Prop :=
  ∃ t key, set.table? m.table = some t ∧ m.column = some key ∧
    ((∃ c ∈ t.columns, c.hasKey key = true) ∨
      (m.kind = .addIndex ∨ m.kind = .addUniqueIndex) ∧ ∃ i ∈ t.indexes, i.name = key)

variable {set : MigrationSet} {m : Migration} {ms pending : List Migration} {t : Table}
  {c : Column} {i : Index} {p p' : Progress} {step : PlanStep} {steps : List PlanStep}
  {ds : List Ddl}

/-! ## 1. One step -/

/-- A column that is looked up has the key. -/
theorem hasKey_of_column? {key : String} (h : t.column? key = some c) :
    c ∈ t.columns ∧ c.hasKey key = true :=
  ⟨List.mem_of_find?_eq_some h, List.find?_some (p := fun c : Column => c.hasKey key) h⟩

theorem resolves_of_names (ht : set.table? m.table = some t) (hc : m.Names t c) :
    set.Resolves m := by
  obtain ⟨key, hkey, hc⟩ := hc
  exact ⟨t, key, ht, hkey, .inl ⟨c, hasKey_of_column? hc⟩⟩

theorem resolves_of_index (hk : m.kind = .addIndex ∨ m.kind = .addUniqueIndex)
    (ht : set.table? m.table = some t) (hi : m.index t = .ok i) : set.Resolves m := by
  obtain ⟨key, hkey, hi⟩ := bind_eq_ok.mp hi
  refine ⟨t, key, ht, requireColumn_eq_ok.mp hkey, ?_⟩
  split at hi
  case h_1 j hj =>
    exact .inr ⟨hk, j, List.mem_of_find?_eq_some hj, by simpa using List.find?_some hj⟩
  case h_2 =>
    split at hi
    case h_1 c hc => exact .inl ⟨c, hasKey_of_column? hc⟩
    case h_2 => cases hi

/-- **A planned migration that uses its column name carries a known one**, whether it is covered or
carried out. -/
theorem resolves_of_planStep (h : set.planStep m pending p = .ok (step, p'))
    (hk : m.kind.usesColumn = true) : set.Resolves m := by
  rcases planStep_cases h with ⟨-, -, hcovered⟩ | ⟨deed, -, hdoes⟩
  · cases hcovered with
    | column _ table _ names => exact resolves_of_names table names
    | index kind table _ index => exact resolves_of_index (.inr kind) table index
    | keys kind => simp [kind, Migration.Kind.usesColumn] at hk
  · generalize deed.statements = ds at hdoes
    cases hdoes with
    | addColumn _ table names => exact resolves_of_names table names
    | addIndex kind table index => exact resolves_of_index kind table index
    | makeUnique _ table names => exact resolves_of_names table names
    | drop kind | create kind | copy kind => simp [kind, Migration.Kind.usesColumn] at hk
    | rebuild kind =>
      rw [Migration.Kind.rebuilds_of_usesColumn hk] at kind
      exact Bool.noConfusion kind

/-- The table of a planned migration is known, unless the table is dropped. -/
theorem table_of_planStep (h : set.planStep m pending p = .ok (step, p'))
    (hk : m.kind ≠ .dropTable) : ∃ t, set.table? m.table = some t := by
  rcases planStep_cases h with ⟨-, -, hcovered⟩ | ⟨deed, -, hdoes⟩
  · cases hcovered with
    | column _ table | index _ table | keys _ table => exact ⟨_, table⟩
  · generalize deed.statements = ds at hdoes
    cases hdoes with
    | drop kind => exact absurd kind hk
    | create _ table | addColumn _ table | addIndex _ table | makeUnique _ table | copy _ table
    | rebuild _ table => exact ⟨_, table⟩

/-! ## 2. Whole plans -/

theorem forall_mem_of_compile {P : Migration → Prop}
    (hstep : ∀ {m pending p step p'}, set.planStep m pending p = .ok (step, p') → P m)
    (hms : set.migrations = .ok ms) (h : set.compile = .ok ds) : ∀ m ∈ ms, P m := by
  obtain ⟨steps, hplan, -⟩ := bind_eq_ok.mp h
  rw [plan_eq_planSteps hms] at hplan
  intro m hm
  exact forall_mem_of_planSteps hstep hplan m ((Migration.sort_perm ms).mem_iff.mpr hm)

/-- **No unknown name gets through, but with a new default or a new foreign key**: the tables of a
plan that succeeds are known, all other names are, and so all names are exactly if those of the two
kinds are. -/
theorem resolves_iff_of_compile (hms : set.migrations = .ok ms) (h : set.compile = .ok ds) :
    (∀ m ∈ ms, m.kind ≠ .dropTable → ∃ t, set.table? m.table = some t) ∧
      (∀ m ∈ ms, m.kind.concernsTable = false → m.kind ≠ .changeDefault →
        m.kind ≠ .addForeignKey → set.Resolves m) ∧
      ((∀ m ∈ ms, m.kind.concernsTable = false → set.Resolves m) ↔
        ∀ m ∈ ms, m.kind = .changeDefault ∨ m.kind = .addForeignKey → set.Resolves m) := by
  have hresolves : ∀ m ∈ ms, m.kind.usesColumn = true → set.Resolves m :=
    forall_mem_of_compile resolves_of_planStep hms h
  refine ⟨forall_mem_of_compile table_of_planStep hms h, fun m hm hk hdefault hkey => ?_, ?_, ?_⟩
  · exact hresolves m hm (Migration.Kind.usesColumn_of_not_concernsTable hk hdefault hkey)
  · rintro hall m hm (hk | hk)
    · exact hall m hm (by rw [hk]; rfl)
    · exact hall m hm (by rw [hk]; rfl)
  · intro hrest m hm hk
    by_cases hunused : m.kind = .changeDefault ∨ m.kind = .addForeignKey
    · exact hrest m hm hunused
    · rw [not_or] at hunused
      exact hresolves m hm (Migration.Kind.usesColumn_of_not_concernsTable hk hunused.1 hunused.2)

end MigrationSet

/-! ## 3. A name that nothing has -/

/-- A table of albums.  Generated code calls the title by an accessor. -/
def albums : Table :=
  { name := "albums"
    columns := [.plain "id" .integer, { Column.plain "title" .text with accessor := some "getTitle" },
      .plain "artist" .integer]
    primaryKey := ["id"]
    foreignKeys := [.single "artist" "artists" "id"]
    indexes := [.single "albums_by_artist" "artist" false] }

/-- One change of the table, under a column name or without one. -/
def albumsChange (kind : Migration.Kind) (column : Option String) : Migration :=
  ⟨kind, "albums", column, .empty⟩

/-- Some changes of the table. -/
def changedAlbums (changes : List Migration) : MigrationSet := .ofMigrations changes [albums] 1

/-- No migration of the table carries the name of a ghost, or none at all, to something known. -/
theorem not_resolves_of_ghost {set : MigrationSet} {kind : Migration.Kind} {column : Option String}
    (ht : set.table? "albums" = some albums) (hcolumn : ∀ key ∈ column, key = "ghost") :
    ¬set.Resolves (albumsChange kind column) := by
  rintro ⟨t, key, ht', hkey, h⟩
  obtain rfl : albums = t := Option.some.inj (ht.symm.trans ht')
  obtain rfl := hcolumn key hkey
  rcases h with ⟨c, hc, hkey⟩ | ⟨-, i, hi, hname⟩
  · simp only [albums, List.mem_cons, List.not_mem_nil, or_false] at hc
    rcases hc with rfl | rfl | rfl <;> exact absurd hkey (by decide)
  · obtain rfl := List.mem_singleton.mp hi
    exact absurd hname (by decide)

/-- A new default for a column that is not there, and a new foreign key for no column. -/
def ghostChanges : List Migration :=
  [albumsChange .changeDefault (some "ghost"), albumsChange .addForeignKey none]

/-- **A plan succeeds with a column name that nothing has**, and without a column name. -/
theorem not_resolves_ghost :
    (changedAlbums ghostChanges).compile =
        .ok (rebuildStatements albums ["id", "title", "artist"]) ∧
      (albumsChange .changeDefault (some "ghost")).kind.concernsTable = false ∧
      ¬(changedAlbums ghostChanges).Resolves (albumsChange .changeDefault (some "ghost")) ∧
      (albumsChange .addForeignKey none).kind.concernsTable = false ∧
      ¬(changedAlbums ghostChanges).Resolves (albumsChange .addForeignKey none) := by
  refine ⟨?_, rfl, not_resolves_of_ghost rfl (by simp), rfl, not_resolves_of_ghost rfl (by simp)⟩
  rw [MigrationSet.compile, plan_eq_planSteps rfl, Migration.sort_eq_self (by decide)]
  rfl

/-- Changes under a column name, an accessor and the name of an index. -/
def knownChanges : List Migration :=
  [albumsChange .changeDefault (some "title"), albumsChange .addColumn (some "artist"),
    albumsChange .addIndex (some "albums_by_artist"), albumsChange .addUniqueIndex (some "getTitle")]

theorem resolves_knownChanges :
    (∃ ds, (changedAlbums knownChanges).compile = .ok ds) ∧
      ∀ m ∈ knownChanges, m.kind.concernsTable = false → (changedAlbums knownChanges).Resolves m := by
  have hcompile : (changedAlbums knownChanges).compile =
      .ok (rebuildStatements albums ["id", "title"] ++
        [.createIndex "albums" (.single "albums_by_artist" "artist" false),
          .createIndex "albums" (albums.uniqueIndex "title")]) := by
    rw [MigrationSet.compile, plan_eq_planSteps rfl, Migration.sort_eq_self (by decide)]
    rfl
  refine ⟨⟨_, hcompile⟩, (MigrationSet.resolves_iff_of_compile rfl hcompile).2.2.mpr ?_⟩
  intro m hm hk
  simp only [knownChanges, List.mem_cons, List.not_mem_nil, or_false] at hm
  rcases hm with rfl | rfl | rfl | rfl
  · exact ⟨albums, "title", rfl, rfl, .inl ⟨_, List.mem_cons_of_mem _ List.mem_cons_self, rfl⟩⟩
  · exact absurd hk (by decide)
  · exact absurd hk (by decide)
  · exact absurd hk (by decide)

end Tabula
