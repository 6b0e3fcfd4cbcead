/-
# What the names in lowered migrations mean

A diff names its table by the key under which it stands, and a column by name or accessor.  The
migrations that it is lowered to carry the plain names of what it named, and these are looked up
once more when they are planned.  A second look-up need not end where the first one did: keys come
before names of tables, and an accessor counts as much as a name, so that a name may be taken for
the key of another table or for the accessor of a column further up.

* `MigrationSet.IsHidden`, `Table.IsHidden`: a table or a column is not found by its own name.
* `table?_name_eq_some_iff`, `column?_name_eq_some_iff`: nothing else keeps it from being found.
* `means_iff_not_isHidden`: what a lowered migration is about is what the diff was about, exactly if
  it is not hidden.
* `not_means_label`: there is a diff whose migration is about another column of another table.
-/
import Mathlib.Data.List.Nodup
import Tabula.Proofs.Migration.Moves

namespace Tabula

open Tabula.Schema

/-! ## 1. Finding things by their own names -/

/-- **A table is hidden** by another one that has its name as a key. -/
def MigrationSet.IsHidden (set : MigrationSet) (t : Table) : Prop :=
  ∃ u, set.target.get? t.name = some u ∧ u.name ≠ t.name

/-- **A column is hidden** by one before it that has its name as an accessor. -/
def Schema.Table.IsHidden (t : Table) (c : Column) : Prop :=
  ∃ d ∈ t.columns.takeWhile fun d => d.name != c.name, d.accessor = some c.name

variable {set : MigrationSet} {t : Table} {c : Column} {d : SchemaDiff} {m : Migration}
  {ms : List Migration} {key : String}

/-- With distinct names, the first element of a name is the only one. -/
theorem find?_name_eq_some {α : Type} {name : α → String} {xs : List α} {x : α}
    (hnames : (xs.map name).Nodup) (hx : x ∈ xs) : xs.find? (name · == name x) = some x := by
  obtain ⟨y, hy⟩ : ∃ y, xs.find? (name · == name x) = some y :=
    Option.isSome_iff_exists.mp (List.find?_isSome.mpr ⟨x, hx, beq_self_eq_true _⟩)
  have hname : name y = name x := by simpa using List.find?_some hy
  rw [hy, List.inj_on_of_nodup_map hnames (List.mem_of_find?_eq_some hy) hx hname]

/-- **A table is found by its name exactly if it is not hidden.** -/
theorem table?_name_eq_some_iff (htables : (set.target.values.map (·.name)).Nodup)
    (ht : t ∈ set.target.values) : set.table? t.name = some t ↔ ¬set.IsHidden t := by
  unfold MigrationSet.table? MigrationSet.IsHidden
  cases hget : set.target.get? t.name with
  | none => simpa using find?_name_eq_some htables ht
  | some u =>
    have hu : u ∈ set.target.values :=
      List.mem_map_of_mem (f := Prod.snd) (Dict.mem_of_lookup hget)
    have heq : u = t ↔ u.name = t.name :=
      ⟨congrArg _, List.inj_on_of_nodup_map htables hu ht⟩
    simp [heq]

/-- With distinct names, the columns before one are those before the first of its name. -/
theorem columns_eq_append (hcolumns : t.columnNames.Nodup) (hc : c ∈ t.columns) :
    ∃ before after, t.columns = before ++ c :: after ∧
      (t.columns.takeWhile fun d => d.name != c.name) = before ∧
      ∀ d ∈ before, d.name ≠ c.name := by
  obtain ⟨before, after, hsplit⟩ := List.append_of_mem hc
  have hne : ∀ d ∈ before, d.name ≠ c.name := by
    rw [Table.columnNames, hsplit, List.map_append, List.map_cons] at hcolumns
    intro d hd heq
    exact List.disjoint_of_nodup_append hcolumns (List.mem_map_of_mem hd) (heq ▸ List.mem_cons_self)
  refine ⟨before, after, hsplit, ?_, hne⟩
  rw [hsplit, List.takeWhile_append_of_pos (by simpa using hne)]
  simp

/-- **A column is found by its name exactly if it is not hidden.** -/
theorem column?_name_eq_some_iff (hcolumns : t.columnNames.Nodup) (hc : c ∈ t.columns) :
    t.column? c.name = some c ↔ ¬t.IsHidden c := by
  obtain ⟨before, after, hsplit, hbefore, hne⟩ := columns_eq_append hcolumns hc
  have hown : c.hasKey c.name = true := by simp [Column.hasKey]
  have hkey : ∀ d ∈ before, d.hasKey c.name = true ↔ d.accessor = some c.name := fun d hd => by
    simp [Column.hasKey, hne d hd]
  have hfind : t.column? c.name = (before.find? (·.hasKey c.name)).or (some c) := by
    simp only [Table.column?, hsplit, List.find?_append, List.find?_cons, hown]
  rw [hfind, Table.IsHidden, hbefore]
  cases hd : before.find? (·.hasKey c.name) with
  | none =>
    simp only [List.find?_eq_none] at hd
    simpa using fun d hmem hacc => hd d hmem ((hkey d hmem).mpr hacc)
  | some d =>
    have hmem := List.mem_of_find?_eq_some hd
    have hacc := (hkey d hmem).mp (List.find?_some (p := fun c' : Column => c'.hasKey c.name) hd)
    have hdc : d ≠ c := fun heq => hne d hmem (congrArg Column.name heq)
    simpa [hdc] using ⟨d, hmem, hacc⟩

/-! ## 2. The names that a migration carries -/

/-- What a diff knows of the table before changes nothing of a migration but its extras. -/
theorem copyExtras_eq : d.copyExtras m = { m with extras := (d.copyExtras m).extras } := by
  simp only [SchemaDiff.copyExtras, List.foldl_cons, List.foldl_nil]
  cases d.attributes.get? Migration.previousColumns <;>
    cases d.attributes.get? Migration.previousForeignKeys <;> rfl

@[simp] theorem copyExtras_kind : (d.copyExtras m).kind = m.kind := by
  rw [copyExtras_eq]

@[simp] theorem copyExtras_table : (d.copyExtras m).table = m.table := by
  rw [copyExtras_eq]

@[simp] theorem copyExtras_column : (d.copyExtras m).column = m.column := by
  rw [copyExtras_eq]

theorem requireName_eq_ok {name : String} : d.requireName = .ok name ↔ d.name? = some name := by
  unfold SchemaDiff.requireName SchemaDiff.unsupported
  cases d.name? <;> simp

/-- A column that a diff names. -/
theorem columnOf_eq_ok (h : d.columnOf t = .ok c) :
    ∃ name, d.name? = some name ∧ t.column? name = some c := by
  obtain ⟨name, hname, hc⟩ := bind_eq_ok.mp h
  exact ⟨name, requireName_eq_ok.mp hname, column_eq_ok.mp hc⟩

/-- The migrations for a column that stayed are about it. -/
theorem names_of_mem_columnChanges (hm : m ∈ d.columnChanges t c) :
    m.table = t.name ∧ m.column = some c.name := by
  rcases List.mem_append.mp hm with hm | hm
  · split at hm
    · obtain rfl := List.mem_singleton.mp hm
      exact ⟨copyExtras_table, copyExtras_column⟩
    · exact absurd hm List.not_mem_nil
  · split at hm
    · obtain rfl := List.mem_singleton.mp hm
      exact ⟨rfl, rfl⟩
    · exact absurd hm List.not_mem_nil

/-- **A migration carries the name of the table under whose key its diff stands**, and that of the
column which its diff names. -/
theorem names_of_migrationsFor (h : d.migrationsFor t = .ok ms) (hm : m ∈ ms) :
    m.table = t.name ∧ (d.object = .column → ∃ name c,
      d.name? = some name ∧ t.column? name = some c ∧ m.column = some c.name) := by
  unfold SchemaDiff.migrationsFor at h
  split at h
  case h_1 hobject _ =>
    cases h
    obtain rfl := List.mem_singleton.mp hm
    exact ⟨rfl, by simp [hobject]⟩
  case h_2 =>
    obtain ⟨c, hc, h⟩ := bind_eq_ok.mp h
    cases h
    obtain rfl := List.mem_singleton.mp hm
    obtain ⟨name, hname, hc⟩ := columnOf_eq_ok hc
    exact ⟨rfl, fun _ => ⟨name, c, hname, hc, rfl⟩⟩
  case h_3 =>
    obtain ⟨c, hc, h⟩ := bind_eq_ok.mp h
    dsimp only at h
    split at h
    · cases h
    · cases h
      obtain ⟨htable, hcolumn⟩ := names_of_mem_columnChanges hm
      obtain ⟨name, hname, hc⟩ := columnOf_eq_ok hc
      exact ⟨htable, fun _ => ⟨name, c, hname, hc, hcolumn⟩⟩
  case h_4 hobject | h_5 hobject =>
    cases h
    obtain rfl := List.mem_singleton.mp hm
    exact ⟨copyExtras_table, by simp [hobject]⟩
  case h_6 hobject _ =>
    obtain ⟨i, -, h⟩ := bind_eq_ok.mp h
    cases h
    obtain rfl := List.mem_singleton.mp hm
    exact ⟨rfl, by simp [hobject]⟩
  case h_7 => cases h

/-- A table that is gone is dropped by its name; any other diff is about a table of the target. -/
theorem migrations_cases (h : d.migrations set key = .ok ms) :
    ms = [.ofTable .dropTable (d.name?.getD key)] ∨
      ∃ t, set.table? key = some t ∧ d.migrationsFor t = .ok ms := by
  unfold SchemaDiff.migrations at h
  split at h
  · cases h
    exact .inl rfl
  · obtain ⟨t, ht, h⟩ := bind_eq_ok.mp h
    exact .inr ⟨t, table_eq_ok.mp ht, h⟩

/-- **A lowered migration means what its diff meant, exactly if that is not hidden**: its table name
is looked up to the table of the diff if no other table has that name as its key, and the name of
a column to the column of the diff if no column before it has that name as its accessor.  Only the
removal of a table looks nothing up, before or after. -/
theorem means_iff_not_isHidden (htables : (set.target.values.map (·.name)).Nodup)
    (hcolumns : ∀ t ∈ set.target.values, t.columnNames.Nodup)
    (h : d.migrations set key = .ok ms) (hm : m ∈ ms) (hk : m.kind ≠ .dropTable) :
    ∃ t, set.table? key = some t ∧ (set.table? m.table = some t ↔ ¬set.IsHidden t) ∧
      (d.object = .column → ∃ name c, d.name? = some name ∧ t.column? name = some c ∧
        ∃ column, m.column = some column ∧ (t.column? column = some c ↔ ¬t.IsHidden c)) := by
  rcases migrations_cases h with rfl | ⟨t, ht, h⟩
  · obtain rfl := List.mem_singleton.mp hm
    exact absurd rfl hk
  · have htarget : t ∈ set.target.values := mem_of_table? ht
    obtain ⟨htable, hcolumn⟩ := names_of_migrationsFor h hm
    refine ⟨t, ht, htable ▸ table?_name_eq_some_iff htables htarget, fun hobject => ?_⟩
    obtain ⟨name, c, hname, hc, hcolumn⟩ := hcolumn hobject
    have hmem : c ∈ t.columns := List.mem_of_find?_eq_some hc
    exact ⟨name, c, hname, hc, c.name, hcolumn,
      column?_name_eq_some_iff (hcolumns t htarget) hmem⟩

/-! ## 3. Names that are taken twice -/

/-- A text column with an accessor. -/
def accessed (name accessor : String) : Column :=
  { Column.plain name .text with accessor := some accessor }

/-- A table of people or of those who were, with two columns besides the identifier. -/
def peopleTable (name : String) (columns : List Column) : Table :=
  { name := name
    columns := .plain "id" .integer :: columns
    primaryKey := ["id"]
    foreignKeys := []
    indexes := [] }

/-- The name of the second column is the accessor of the first one. -/
def crossedColumns : List Column := [accessed "kind" "type", accessed "type" "label"]

/-- A new column, under a key and by its accessor. -/
def newColumn (key accessor : String) : Dict (List SchemaDiff) :=
  .ofList [(key, [.created .column accessor])]

/-- The name of the first table is the key of the second one. -/
def crossedPeople : MigrationSet :=
  ⟨.diffs (newColumn "Person" "label"),
    .ofList [("Person", peopleTable "people" crossedColumns),
      ("people", peopleTable "archive" crossedColumns)], 1, .accessors⟩

/-- **A diff of one column whose migration is about another column of another table**, and what is
planned for it: names are distinct, but not from keys and accessors. -/
theorem not_means_label :
    (crossedPeople.target.values.map (·.name)).Nodup ∧
      (∀ t ∈ crossedPeople.target.values, t.columnNames.Nodup) ∧
      crossedPeople.table? "Person" = some (peopleTable "people" crossedColumns) ∧
      (peopleTable "people" crossedColumns).column? "label" = some (accessed "type" "label") ∧
      (SchemaDiff.created .column "label").migrations crossedPeople "Person" =
        .ok [.ofColumn .addColumn "people" "type"] ∧
      crossedPeople.table? "people" ≠ some (peopleTable "people" crossedColumns) ∧
      (peopleTable "people" crossedColumns).column? "type" ≠ some (accessed "type" "label") ∧
      crossedPeople.compile = .ok [.addColumn "archive" (accessed "kind" "type")] := by
  have hvalues : crossedPeople.target.values =
      [peopleTable "people" crossedColumns, peopleTable "archive" crossedColumns] := rfl
  have hfound : crossedPeople.table? "people" = some (peopleTable "archive" crossedColumns) := rfl
  have hcolumn : (peopleTable "people" crossedColumns).column? "type" =
      some (accessed "kind" "type") := rfl
  refine ⟨by decide, ?_, rfl, rfl, rfl, fun h => ?_, fun h => ?_, ?_⟩
  · rw [hvalues]
    simp only [List.mem_cons, List.not_mem_nil, or_false]
    rintro t (rfl | rfl) <;> decide
  · rw [hfound] at h
    exact absurd (congrArg Table.name (Option.some.inj h)) (by decide)
  · rw [hcolumn] at h
    exact absurd (congrArg Column.name (Option.some.inj h)) (by decide)
  · rw [MigrationSet.compile, plan_eq_planSteps rfl, Migration.sort_eq_self (by decide)]
    rfl

/-- People with accessors that are no names of columns. -/
def labelledPeople : Table :=
  peopleTable "people" [accessed "kind" "getKind", accessed "label" "getLabel"]

/-- A set whose keys are no names of tables. -/
def newLabel : MigrationSet :=
  ⟨.diffs (newColumn "Person" "getLabel"),
    .ofList [("Archive", peopleTable "archive" []), ("Person", labelledPeople)], 1, .accessors⟩

theorem means_newLabel :
    (SchemaDiff.created .column "getLabel").migrations newLabel "Person" =
        .ok [.ofColumn .addColumn "people" "label"] ∧
      newLabel.table? "Person" = some labelledPeople ∧
      newLabel.table? "people" = some labelledPeople ∧
      labelledPeople.column? "getLabel" = some (accessed "label" "getLabel") ∧
      labelledPeople.column? "label" = some (accessed "label" "getLabel") := by
  have hcolumns : ∀ t ∈ newLabel.target.values, t.columnNames.Nodup := by
    have hvalues : newLabel.target.values = [peopleTable "archive" [], labelledPeople] := rfl
    rw [hvalues]
    simp only [List.mem_cons, List.not_mem_nil, or_false]
    rintro t (rfl | rfl) <;> decide
  have hlower : (SchemaDiff.created .column "getLabel").migrations newLabel "Person" =
      .ok [.ofColumn .addColumn "people" "label"] := rfl
  obtain ⟨t, ht, htable, hcolumn⟩ :=
    means_iff_not_isHidden (by decide) hcolumns hlower List.mem_cons_self (by decide)
  have hperson : newLabel.table? "Person" = some labelledPeople := rfl
  obtain rfl : labelledPeople = t := Option.some.inj (hperson.symm.trans ht)
  obtain ⟨name, c, hname, hc, column, hm, hlookup⟩ := hcolumn rfl
  obtain rfl : "getLabel" = name := Option.some.inj hname
  obtain rfl : "label" = column := Option.some.inj hm
  obtain rfl : accessed "label" "getLabel" = c := Option.some.inj hc
  refine ⟨hlower, hperson, htable.mpr ?_, hc, hlookup.mpr ?_⟩
  · rintro ⟨u, hu, -⟩
    have hget : newLabel.target.get? labelledPeople.name = none := rfl
    exact Option.some_ne_none u (hu.symm.trans hget)
  · rintro ⟨d, hd, hacc⟩
    have hbefore : (labelledPeople.columns.takeWhile
        fun d => d.name != (accessed "label" "getLabel").name) =
        [.plain "id" .integer, accessed "kind" "getKind"] := rfl
    rw [hbefore] at hd
    simp only [List.mem_cons, List.not_mem_nil, or_false] at hd
    rcases hd with rfl | rfl <;> exact absurd hacc (by decide)

end Tabula
