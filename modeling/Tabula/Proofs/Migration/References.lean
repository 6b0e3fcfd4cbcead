/-
# What rebuilding a table does to the foreign keys of other tables

When a table is renamed, the engine turns the foreign keys that refer to it to its new name.  CREATE
TABLE and DROP TABLE turn none.  To rebuild a table means to rename it first, so that the foreign
keys of other tables follow the old table to its temporary name.  They still refer to that name when
the old table is dropped under it, and not to the table that was created in its place.

* `Links`: the foreign keys of each table; `Ddl.relink` is what a statement makes of them.
* `run_rebuildStatements`: what the statements of a rebuild make of them.
* `links_of_rebuild`: each foreign key of another table refers to what it referred to, unless that
  was the rebuilt table.
* `not_keeps_players`: there is one that refers to a table that is gone.
-/
import Mathlib.Logic.Function.Basic
import Tabula.Proofs.Migration.Shapes

namespace Tabula

open Tabula.Schema

/-! ## 1. Foreign keys of a database -/

/-- The foreign keys of each table; `none` for a table that there is not. -/
abbrev Links := String → Option (List ForeignKey)

/-- The foreign key after a table is renamed: it follows the table that it refers to. -/
def Schema.ForeignKey.follow (k : ForeignKey) (old new : String) : ForeignKey :=
  if k.table = old then { k with table := new } else k

namespace Links

variable {links : Links} {table other : String} {keys : Option (List ForeignKey)}

/-- A table gets other foreign keys, or goes. -/
def set (links : Links) (table : String) (keys : Option (List ForeignKey)) : Links :=
  Function.update links table keys

@[simp] theorem set_self : links.set table keys table = keys := Function.update_self ..

theorem set_of_ne (h : other ≠ table) : links.set table keys other = links other :=
  Function.update_of_ne h ..

/-- The foreign keys of all tables follow a table to its new name. -/
def follow (links : Links) (old new : String) : Links := fun table =>
  (links table).map (List.map (·.follow old new))

end Links

/-- What a statement makes of the foreign keys of a database, if it does not fail: tables must be
there, or must not. -/
def Schema.Ddl.relink (links : Links) : Ddl → Option Links
  | .createTable t =>
    if links t.name = none then some (links.set t.name (some t.foreignKeys)) else none
  | .createTableAs name source _ =>
    if links name = none ∧ links source ≠ none then some (links.set name (some [])) else none
  | .copyRows table source _ =>
    if links table ≠ none ∧ links source ≠ none then some links else none
  | .dropTable name => some (links.set name none)
  | .renameTable old new =>
    if links old ≠ none ∧ links new = none then
      some (((links.follow old new).set new (links.follow old new old)).set old none)
    else none
  | .addColumn table _ => if links table ≠ none then some links else none
  | .createIndex table _ => if links table ≠ none then some links else none

/-- Runs statements one after another. -/
def Links.run (links : Links) (ds : List Ddl) : Option Links := ds.foldlM Ddl.relink links

/-! ## 2. Rebuilding -/

variable {links links' : Links} {t : Table} {copied : List String} {d : Ddl} {ds es : List Ddl}

theorem run_cons : links.run (d :: ds) = (d.relink links).bind fun links' => links'.run ds :=
  List.foldlM_cons

theorem run_append : links.run (ds ++ es) = (links.run ds).bind fun links' => links'.run es :=
  List.foldlM_append

/-- Indexes leave foreign keys as they are. -/
theorem run_createIndexes (is : List Index) (h : links t.name ≠ none) :
    links.run (is.map (Ddl.createIndex t.name)) = some links := by
  induction is with
  | nil => rfl
  | cons i is ih =>
    rw [List.map_cons, run_cons]
    simpa [Ddl.relink, h] using ih

/-- The foreign keys after a table was rebuilt: those of the old table are gone, the new one has its
own, and those of all other tables have followed the old one to its temporary name. -/
def Links.rebuilt (links : Links) (t : Table) : Links :=
  ((links.follow t.name (temporaryName t.name)).set t.name (some t.foreignKeys)).set
    (temporaryName t.name) none

/-- **A table can be rebuilt if it is there and no table has its temporary name**, and this is what
becomes of the foreign keys. -/
theorem run_rebuildStatements (links : Links) (t : Table) (copied : List String) :
    links.run (rebuildStatements t copied) =
      if links t.name ≠ none ∧ links (temporaryName t.name) = none then some (links.rebuilt t)
      else none := by
  have hne : temporaryName t.name ≠ t.name := temporaryName_ne t.name
  have hstatements : rebuildStatements t copied =
      .renameTable t.name (temporaryName t.name) :: .createTable t ::
        ((if copied = [] then [] else [.copyRows t.name (temporaryName t.name) copied]) ++
          .dropTable (temporaryName t.name) :: t.allIndexes.map (.createIndex t.name)) := by
    simp [rebuildStatements]
  rw [hstatements, run_cons]
  by_cases h : links t.name ≠ none ∧ links (temporaryName t.name) = none
  · have hold : links.follow t.name (temporaryName t.name) t.name ≠ none := by
      simpa [Links.follow] using h.1
    rw [if_pos h, Ddl.relink, if_pos h, Option.bind_some, run_cons, Links.rebuilt]
    generalize links.follow t.name (temporaryName t.name) = followed at hold ⊢
    -- The old table has its temporary name now, and its own is free.
    generalize hrenamed : (followed.set (temporaryName t.name) (followed t.name)).set t.name none =
      renamed
    have hfree : renamed t.name = none := by rw [← hrenamed, Links.set_self]
    have htemp : renamed (temporaryName t.name) ≠ none := by
      rwa [← hrenamed, Links.set_of_ne hne, Links.set_self]
    rw [Ddl.relink, if_pos hfree, Option.bind_some, run_append]
    generalize hcreated : renamed.set t.name (some t.foreignKeys) = created
    have hcopy : created.run (if copied = [] then [] else
        [.copyRows t.name (temporaryName t.name) copied]) = some created := by
      have hboth : created t.name ≠ none ∧ created (temporaryName t.name) ≠ none := by
        rw [← hcreated, Links.set_self, Links.set_of_ne hne]
        exact ⟨Option.some_ne_none _, htemp⟩
      split
      · rfl
      · rw [run_cons, Ddl.relink, if_pos hboth]
        rfl
    rw [hcopy, Option.bind_some, run_cons, Ddl.relink, Option.bind_some, run_createIndexes]
    · rw [← hcreated, ← hrenamed]
      congr 1
      funext u
      by_cases htempu : u = temporaryName t.name
      · simp [htempu]
      · by_cases hu : u = t.name
        · simp [hu, Links.set_of_ne hne.symm]
        · simp [Links.set_of_ne htempu, Links.set_of_ne hu]
    · rw [Links.set_of_ne hne.symm, ← hcreated, Links.set_self]
      exact Option.some_ne_none _
  · rw [if_neg h, Ddl.relink, if_neg h]
    rfl

/-! ## 3. Foreign keys of other tables -/

/-- What becomes of a table other than the rebuilt one. -/
theorem rebuilt_of_ne {other : String} (hne : other ≠ t.name)
    (htemp : links (temporaryName t.name) = none) :
    links.rebuilt t other = links.follow t.name (temporaryName t.name) other := by
  by_cases h : other = temporaryName t.name
  · rw [h, Links.rebuilt, Links.set_self, Links.follow, htemp]
    rfl
  · rw [Links.rebuilt, Links.set_of_ne h, Links.set_of_ne hne]

/-- Foreign keys stay as they are exactly if none refers to the table that is renamed. -/
theorem map_follow_eq_self_iff (keys : List ForeignKey) {old new : String} (hne : new ≠ old) :
    keys.map (·.follow old new) = keys ↔ ∀ k ∈ keys, k.table ≠ old := by
  have hkey : ∀ k : ForeignKey, k.follow old new = k ↔ k.table ≠ old := by
    intro k
    unfold ForeignKey.follow
    split
    case isTrue h =>
      refine iff_of_false (fun heq => hne ?_) (not_not_intro h)
      rw [← h, ← congrArg ForeignKey.table heq]
    case isFalse h => exact iff_of_true rfl h
  conv_lhs => rhs; rw [← List.map_id keys]
  rw [List.map_inj_left]
  simp only [id, hkey]

/-- **A foreign key of another table refers to what it referred to, unless that was the rebuilt
table**: then it follows the old table to its temporary name, which no table has any more.  So all
foreign keys of other tables stay as they are exactly if none refers to the rebuilt table.  The
statements succeed if the table is there and its temporary name is free. -/
theorem links_of_rebuild {m : Migration} {s : Shape} {deed : Deed} (h : m.rebuild s = .ok deed)
    (links : Links) :
    ((links.run deed.statements).isSome ↔
      links s.table.name ≠ none ∧ links (temporaryName s.table.name) = none) ∧
    ∀ links', links.run deed.statements = some links' →
      links' (temporaryName s.table.name) = none ∧
      (∀ other, other ≠ s.table.name → links' other =
        (links other).map (List.map (·.follow s.table.name (temporaryName s.table.name)))) ∧
      ((∀ other, other ≠ s.table.name → links' other = links other) ↔
        ∀ other keys, other ≠ s.table.name → links other = some keys →
          ∀ k ∈ keys, k.table ≠ s.table.name) := by
  obtain ⟨copied, -, h⟩ := bind_eq_ok.mp h
  obtain ⟨lost, -, h⟩ := bind_eq_ok.mp h
  cases h
  rw [run_rebuildStatements]
  generalize s.table = t
  by_cases hready : links t.name ≠ none ∧ links (temporaryName t.name) = none
  · rw [if_pos hready]
    refine ⟨iff_of_true rfl hready, fun links' hlinks' => ?_⟩
    obtain rfl := Option.some.inj hlinks'
    have hother : ∀ other, other ≠ t.name → links.rebuilt t other =
        (links other).map (List.map (·.follow t.name (temporaryName t.name))) :=
      fun other hne => rebuilt_of_ne hne hready.2
    refine ⟨Links.set_self, hother, ?_⟩
    have hkeys := fun keys => map_follow_eq_self_iff keys (temporaryName_ne t.name)
    constructor
    · intro hsame other keys hne hsome
      rw [← hkeys, ← Option.some_inj, ← Option.map_some, ← hsome, ← hother other hne, hsame other hne]
    · intro hnone other hne
      rw [hother other hne]
      cases hsome : links other with
      | none => rfl
      | some keys => rw [Option.map_some, (hkeys keys).mpr (hnone other keys hne hsome)]
  · rw [if_neg hready]
    exact ⟨iff_of_false (by simp) hready, fun links' hlinks' => absurd hlinks' (by simp)⟩

/-! ## 4. A table that others refer to -/

/-- A table of teams, to be rebuilt for its primary key. -/
def teams : Table :=
  { name := "teams"
    columns := [.plain "id" .integer, .plain "title" .text]
    primaryKey := ["id"]
    foreignKeys := []
    indexes := [] }

/-- The teams get another primary key. -/
def rekeyedTeams : MigrationSet := .ofMigrations [.ofTable .updatePrimaryKey "teams"] [teams] 1

/-- Teams, players who refer to them, and matches that refer to another table. -/
def leagueLinks : Links := fun table =>
  match table with
  | "teams" => some []
  | "players" => some [.single "team" "teams" "id"]
  | "matches" => some [.single "venue" "venues" "id"]
  | _ => none

/-- **Players refer to a table that is gone**, after the teams were rebuilt. -/
theorem not_keeps_players :
    rekeyedTeams.compile = .ok (rebuildStatements teams ["id", "title"]) ∧
      ∃ links', leagueLinks.run (rebuildStatements teams ["id", "title"]) = some links' ∧
        leagueLinks "players" = some [.single "team" "teams" "id"] ∧
        links' "players" = some [.single "team" "temp_teams" "id"] ∧ links' "temp_teams" = none := by
  refine ⟨?_, leagueLinks.rebuilt teams, ?_, rfl, ?_, ?_⟩
  · rw [MigrationSet.compile, plan_eq_planSteps rfl, Migration.sort_eq_self (by decide)]
    rfl
  · rw [run_rebuildStatements, if_pos ⟨Option.some_ne_none _, rfl⟩]
  · exact rebuilt_of_ne (by decide) rfl
  · exact Links.set_self

/-- Matches refer to what they referred to. -/
theorem keeps_matches :
    ∃ links', leagueLinks.run (rebuildStatements teams ["id", "title"]) = some links' ∧
      links' "matches" = leagueLinks "matches" := by
  have hrebuild : (Migration.ofTable .updatePrimaryKey "teams").rebuild ⟨teams, [], []⟩ =
      .ok ⟨rebuildStatements teams ["id", "title"], none⟩ := rfl
  obtain ⟨hready, h⟩ := links_of_rebuild hrebuild leagueLinks
  obtain ⟨links', hlinks'⟩ := Option.isSome_iff_exists.mp (hready.mpr ⟨Option.some_ne_none _, rfl⟩)
  obtain ⟨-, hother, -⟩ := h links' hlinks'
  exact ⟨links', hlinks', hother "matches" (by decide)⟩

end Tabula
