/-
# What becomes of a changed column

A diff of a column that stayed has flags for what changed.  There are only two migrations for it: a
new default rebuilds the table, which carries out any change, and a new UNIQUE adds an index, which
carries out nothing else.  A diff with neither is refused.

* `isCarriedOut_iff_not_loses`: each change that a lowered diff states is carried out, exactly if
  the diff does not put another change beside a new UNIQUE, without a new default.
* `isCarriedOut_changedColumn_iff`: the same for the diffs of a set; where a change is not carried
  out and the diff does not lose it, the whole set is refused.
* `not_isCarriedOut_retypedSerial`: a column that becomes unique and gets another type, whose new
  type is lost.
-/
import Tabula.Proofs.Migration.LoweredNames

namespace Tabula

open Tabula.Schema

/-! ## 1. Changes and what carries them out -/

namespace ChangeFlags

/-- The flags of a column that stayed which only a new table can do justice to. -/
def structural : List ChangeFlags := [type, columns, sort, foreignKey]

/-- The flags of a column that stayed which ask for a migration. -/
def demanded : List ChangeFlags := default :: constraint :: structural

end ChangeFlags

/-- Whether a kind of migration carries out the change of a column for which a flag stands: a new
table carries out any change, and an index a new UNIQUE. -/
def Migration.Kind.carriesOut (k : Kind) (f : ChangeFlags) : Bool :=
  if f = .default then k = .changeDefault
  else if f = .constraint then k = .makeColumnUnique || k.rebuilds
  else k.rebuilds

/-- **A migration carries out a change of a column.** -/
def Migration.CarriesOut (m : Migration) (t : Table) (c : Column) (f : ChangeFlags) : Prop :=
  m.table = t.name ∧ m.column = some c.name ∧ m.kind.carriesOut f

namespace SchemaDiff

/-- **Each change of a column that a diff states** is carried out by one of some migrations. -/
def IsCarriedOut (d : SchemaDiff) (t : Table) (c : Column) (ms : List Migration) : Prop :=
  ∀ f ∈ ChangeFlags.demanded, d.flags.contains f → ∃ m ∈ ms, m.CarriesOut t c f

/-- **A diff loses a change** that it states beside a new UNIQUE, if it states no new default. -/
def Loses (d : SchemaDiff) (c : Column) : Prop :=
  d.flags.contains .default = false ∧ d.flags.contains .constraint ∧ c.unique ∧
    ∃ f ∈ ChangeFlags.structural, d.flags.contains f

/-- The column that a diff under a table key names. -/
def Finds (d : SchemaDiff) (set : MigrationSet) (key : String) (t : Table) (c : Column) : Prop :=
  set.table? key = some t ∧ ∃ name, d.name? = some name ∧ t.column? name = some c

variable {set : MigrationSet} {key : String} {d : SchemaDiff} {t : Table} {c : Column}
  {ms : List Migration} {f : ChangeFlags}

/-- A new default carries out any change. -/
theorem carriesOut_changeDefault :
    (d.copyExtras (.ofColumn .changeDefault t.name c.name)).CarriesOut t c f := by
  refine ⟨copyExtras_table, copyExtras_column, ?_⟩
  simp [Migration.Kind.carriesOut, Migration.ofColumn, Migration.Kind.rebuilds]

/-- An index carries out nothing but a new UNIQUE. -/
theorem carriesOut_makeColumnUnique_iff :
    (Migration.ofColumn .makeColumnUnique t.name c.name).CarriesOut t c f ↔ f = .constraint := by
  have hne : ChangeFlags.constraint ≠ .default := by decide
  have hkind : Migration.Kind.carriesOut .makeColumnUnique f ↔ f = .constraint := by
    by_cases hdefault : f = .default
    · simp [Migration.Kind.carriesOut, hdefault, hne.symm]
    · simp [Migration.Kind.carriesOut, hdefault, Migration.Kind.rebuilds]
  exact ⟨fun h => hkind.mp h.2.2, fun h => ⟨rfl, rfl, hkind.mpr h⟩⟩

/-- **The migrations for a column that stayed carry out each change that the diff states, exactly if
it does not lose one.** -/
theorem isCarriedOut_columnChanges_iff (h : d.columnChanges t c ≠ []) :
    d.IsCarriedOut t c (d.columnChanges t c) ↔ ¬d.Loses c := by
  cases hdefault : d.flags.contains .default with
  | true =>
    have hmem : d.copyExtras (.ofColumn .changeDefault t.name c.name) ∈ d.columnChanges t c := by
      simp [columnChanges, hdefault]
    have hall : d.IsCarriedOut t c (d.columnChanges t c) :=
      fun f _ _ => ⟨_, hmem, carriesOut_changeDefault⟩
    have hkeeps : ¬d.Loses c := fun hloses => Bool.false_ne_true (hloses.1.symm.trans hdefault)
    exact iff_of_true hall hkeeps
  | false =>
    -- Without a new default there is a migration for a new UNIQUE only.
    have hunique : d.flags.contains .constraint = true ∧ c.unique = true := by
      by_contra hnot
      exact h (by simp [columnChanges, hdefault, hnot])
    have hchanges : d.columnChanges t c = [.ofColumn .makeColumnUnique t.name c.name] := by
      simp [columnChanges, hdefault, hunique]
    have hne : ∀ f ∈ ChangeFlags.structural, f ≠ .constraint := by decide
    simp only [IsCarriedOut, hchanges, List.mem_singleton, exists_eq_left,
      carriesOut_makeColumnUnique_iff, Loses, hdefault, hunique, true_and]
    constructor
    · rintro hall ⟨f, hf, hset⟩
      exact hne f hf (hall f (List.mem_cons_of_mem _ (List.mem_cons_of_mem _ hf)) hset)
    · intro hnone f hf hset
      rcases List.mem_cons.mp hf with rfl | hf
      · exact absurd (hset.symm.trans hdefault) (by decide)
      · rcases List.mem_cons.mp hf with rfl | hf
        · rfl
        · exact absurd ⟨f, hf, hset⟩ hnone

/-- A diff that loses a change has a migration for the new UNIQUE. -/
theorem columnChanges_ne_nil_of_loses (h : d.Loses c) : d.columnChanges t c ≠ [] := by
  simp [columnChanges, h.2.1, h.2.2.1]

/-! ## 2. Diffs of a column that stayed -/

section Changed

variable (hobject : d.object = .column) (hkind : d.kind = .changed)

include hobject hkind

/-- What a diff of a column that stayed is lowered to. -/
theorem migrations_of_finds (h : d.Finds set key t c) :
    d.migrations set key =
      if d.columnChanges t c = [] then .error (.unsupportedDiff .column .changed)
      else .ok (d.columnChanges t c) := by
  obtain ⟨ht, name, hname, hc⟩ := h
  have hcolumn : d.columnOf t = .ok c := by
    rw [columnOf, requireName_eq_ok.mpr hname]
    exact column_eq_ok.mpr hc
  have hgone : ¬(d.object = .table ∧ d.kind = .dropped) := by simp [hobject]
  rw [SchemaDiff.migrations, if_neg hgone, table_eq_ok.mpr ht, ok_bind, migrationsFor, hobject,
    hkind]
  simp only [hcolumn, ok_bind, unsupported, hobject, hkind, pure_eq_ok]

/-- A diff that is lowered names a column of a table of the target. -/
theorem finds_of_migrations (h : d.migrations set key = .ok ms) :
    ∃ t c, d.Finds set key t c ∧ d.columnChanges t c ≠ [] ∧ ms = d.columnChanges t c := by
  have hgone : ¬(d.object = .table ∧ d.kind = .dropped) := by simp [hobject]
  rw [SchemaDiff.migrations, if_neg hgone] at h
  obtain ⟨t, ht, hms⟩ := bind_eq_ok.mp h
  rw [migrationsFor, hobject, hkind] at hms
  obtain ⟨c, hc, -⟩ := bind_eq_ok.mp hms
  obtain ⟨name, hname, hc⟩ := columnOf_eq_ok hc
  have hfinds : d.Finds set key t c := ⟨table_eq_ok.mp ht, name, hname, hc⟩
  have hlowered := migrations_of_finds hobject hkind hfinds
  rw [SchemaDiff.migrations, if_neg hgone, h] at hlowered
  split at hlowered
  case isTrue => cases hlowered
  case isFalse hne => exact ⟨t, c, hfinds, hne, Except.ok.inj hlowered⟩

/-- **Each change that a lowered diff of a column states is carried out by one of its migrations,
exactly if it does not lose one.** -/
theorem isCarriedOut_iff_not_loses (h : d.migrations set key = .ok ms) :
    ∃ t c, d.Finds set key t c ∧ (d.IsCarriedOut t c ms ↔ ¬d.Loses c) := by
  obtain ⟨t, c, hfinds, hne, rfl⟩ := finds_of_migrations hobject hkind h
  exact ⟨t, c, hfinds, isCarriedOut_columnChanges_iff hne⟩

/-- A diff of whose changes one is not carried out is refused, exactly if it does not lose one. -/
theorem migrations_eq_error_iff (hfinds : d.Finds set key t c)
    (h : ¬d.IsCarriedOut t c (d.columnChanges t c)) :
    d.migrations set key = .error (.unsupportedDiff .column .changed) ↔ ¬d.Loses c := by
  rw [migrations_of_finds hobject hkind hfinds]
  by_cases hnil : d.columnChanges t c = []
  · rw [if_pos hnil]
    exact iff_of_true rfl fun hloses => columnChanges_ne_nil_of_loses hloses hnil
  · have hloses : d.Loses c :=
      Classical.not_not.mp fun hkeeps => h ((isCarriedOut_columnChanges_iff hnil).mpr hkeeps)
    rw [if_neg hnil]
    exact iff_of_false (by simp) (not_not_intro hloses)

end Changed
end SchemaDiff

/-! ## 3. Diffs of a set -/

namespace MigrationSet

/-- The diffs of a set under the keys of their tables, in the order in which they are lowered. -/
def keyedDiffs (diffs : Dict (List SchemaDiff)) : List (String × SchemaDiff) :=
  diffs.entries.flatMap fun e => e.2.map fun d => (e.1, d)

variable {set : MigrationSet} {diffs : Dict (List SchemaDiff)}
  {before after : List (String × SchemaDiff)} {key : String} {d : SchemaDiff}
  {ms : List Migration}

/-- What a diff of a set is lowered to is part of what the set is lowered to. -/
theorem infix_of_migrations (hsource : set.source = .diffs diffs)
    (hdiff : keyedDiffs diffs = before ++ (key, d) :: after) (h : set.migrations = .ok ms) :
    ∃ lowered, d.migrations set key = .ok lowered ∧ lowered <:+: ms := by
  rw [migrations, hsource] at h
  obtain ⟨lists, hlists, h⟩ := bind_eq_ok.mp h
  cases h
  rw [← keyedDiffs, hdiff] at hlists
  obtain ⟨earlier, lowered, later, hlowered, rfl⟩ := exists_of_mapM_eq_ok hlists
  exact ⟨lowered, hlowered, earlier.flatten, later.flatten, by simp⟩

/-- A set is refused as one of its diffs is, if those before it are lowered. -/
theorem migrations_eq_error (hsource : set.source = .diffs diffs)
    (hdiff : keyedDiffs diffs = before ++ (key, d) :: after)
    (hbefore : ∀ e ∈ before, ∃ lowered, e.2.migrations set e.1 = .ok lowered) {e : MigrationError}
    (h : d.migrations set key = .error e) : set.migrations = .error e := by
  rw [migrations, hsource]
  change (keyedDiffs diffs).mapM (fun e => e.2.migrations set e.1) >>= _ = _
  rw [hdiff, mapM_eq_error hbefore h]
  rfl

/-- **No change of a column is dropped without a word, but by the diffs that lose one**: a lowered
diff has each of its changes carried out exactly if it does not lose one, and its migrations are
part of those of the set.  A diff of whose changes one is not carried out is refused exactly if it
does not lose one, and then the whole set is refused for it, unless it is for a diff before. -/
theorem isCarriedOut_changedColumn_iff (hsource : set.source = .diffs diffs)
    (hdiff : keyedDiffs diffs = before ++ (key, d) :: after) (hobject : d.object = .column)
    (hkind : d.kind = .changed) :
    (∀ lowered, d.migrations set key = .ok lowered →
      ∃ t c, d.Finds set key t c ∧ (d.IsCarriedOut t c lowered ↔ ¬d.Loses c)) ∧
    (∀ ms, set.migrations = .ok ms →
      ∃ lowered, d.migrations set key = .ok lowered ∧ lowered <:+: ms) ∧
    (∀ t c, d.Finds set key t c → ¬d.IsCarriedOut t c (d.columnChanges t c) →
      (d.migrations set key = .error (.unsupportedDiff .column .changed) ↔ ¬d.Loses c) ∧
      ((∀ e ∈ before, ∃ lowered, e.2.migrations set e.1 = .ok lowered) → ¬d.Loses c →
        set.migrations = .error (.unsupportedDiff .column .changed))) := by
  refine ⟨fun lowered h => SchemaDiff.isCarriedOut_iff_not_loses hobject hkind h,
    fun ms h => infix_of_migrations hsource hdiff h, ?_⟩
  intro t c hfinds hnot
  have hrefused := SchemaDiff.migrations_eq_error_iff hobject hkind hfinds hnot
  exact ⟨hrefused, fun hbefore hkeeps =>
    migrations_eq_error hsource hdiff hbefore (hrefused.mpr hkeeps)⟩

end MigrationSet

/-! ## 4. A change that is lost -/

/-- The serial number of a device. -/
def serialNumber : Column := { Column.plain "serial" .text with unique := true }

/-- The owner of a device. -/
def deviceOwner : Column := .plain "owner" .text

/-- A table of devices. -/
def devices : Table :=
  { name := "devices"
    columns := [.plain "id" .integer, serialNumber, deviceOwner]
    primaryKey := ["id"]
    foreignKeys := []
    indexes := [] }

/-- A set of diffs of devices. -/
def devicesAfter (diffs : List SchemaDiff) : MigrationSet :=
  ⟨.diffs (.ofList [("devices", diffs)]), .ofList [("devices", devices)], 1, .names⟩

/-- A serial number of another type, which becomes unique. -/
def retypedSerial : SchemaDiff := .changed .column "serial" (.union .type .constraint)

/-- **A column that becomes unique and has another type gets its index only**; the new type alone is
refused. -/
theorem not_isCarriedOut_retypedSerial :
    retypedSerial.isConsistent ∧ retypedSerial.flags.contains .type ∧
      (devicesAfter [retypedSerial]).migrations =
        .ok [.ofColumn .makeColumnUnique "devices" "serial"] ∧
      ¬(Migration.ofColumn .makeColumnUnique "devices" "serial").CarriesOut devices serialNumber
        .type ∧
      (devicesAfter [retypedSerial]).compile =
        .ok [.createIndex "devices" (.single "devices_serial_unique" "serial" true)] ∧
      (devicesAfter [.changed .column "serial" .type]).migrations =
        .error (.unsupportedDiff .column .changed) := by
  refine ⟨by decide, by decide, rfl, ?_, ?_, rfl⟩
  · exact fun h => absurd h.2.2 (by decide)
  · rw [MigrationSet.compile, plan_eq_planSteps rfl, Migration.sort_eq_self (by decide)]
    rfl

/-- An owner of another type with another default. -/
def newOwner : SchemaDiff := .changed .column "owner" (.union .default .type)

/-- An owner that is sorted in another way. -/
def resortedOwner : SchemaDiff := .changed .column "owner" .sort

theorem isCarriedOut_newOwner :
    newOwner.IsCarriedOut devices deviceOwner [.ofColumn .changeDefault "devices" "owner"] ∧
      (devicesAfter [newOwner]).migrations =
        .ok [.ofColumn .changeDefault "devices" "owner"] ∧
      (devicesAfter [newOwner, resortedOwner]).migrations =
        .error (.unsupportedDiff .column .changed) := by
  have hfound : ∀ diffs, (devicesAfter diffs).table? "devices" = some devices := fun _ => rfl
  have howner : devices.column? "owner" = some deviceOwner := rfl
  refine ⟨?_, rfl, ?_⟩
  · obtain ⟨hlowered, -⟩ := @MigrationSet.isCarriedOut_changedColumn_iff (devicesAfter [newOwner]) _
      [] [] "devices" newOwner rfl rfl rfl rfl
    obtain ⟨t, c, ⟨ht, name, hname, hc⟩, hiff⟩ := hlowered _ rfl
    obtain rfl : devices = t := Option.some.inj ((hfound _).symm.trans ht)
    obtain rfl : "owner" = name := Option.some.inj hname
    obtain rfl : deviceOwner = c := Option.some.inj (howner.symm.trans hc)
    exact hiff.mpr fun hloses => absurd hloses.1 (by decide)
  · obtain ⟨-, -, hrefused⟩ := @MigrationSet.isCarriedOut_changedColumn_iff
      (devicesAfter [newOwner, resortedOwner]) _ [("devices", newOwner)] [] "devices" resortedOwner
      rfl rfl rfl rfl
    have hnone : resortedOwner.columnChanges devices deviceOwner = [] := rfl
    have hnot : ¬resortedOwner.IsCarriedOut devices deviceOwner
        (resortedOwner.columnChanges devices deviceOwner) := by
      intro hall
      obtain ⟨m, hm, -⟩ := hall .sort (by decide) (by decide)
      exact absurd (hnone ▸ hm) List.not_mem_nil
    refine (hrefused devices deviceOwner ⟨rfl, "owner", rfl, rfl⟩ hnot).2 ?_ ?_
    · rintro e he
      obtain rfl := List.mem_singleton.mp he
      exact ⟨_, rfl⟩
    · exact fun hloses => absurd hloses.2.1 (by decide)

end Tabula
