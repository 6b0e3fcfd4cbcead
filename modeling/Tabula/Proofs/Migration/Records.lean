/-
# Migration sets survive being written

A set that was read from a document has exactly one source, its diffs agree with their flags, and
the document that it is written as is read as the same set (`ofText_render`), whatever the first
document looked like: an object or an array, with keys on columns, with members that nobody knows.
What such a document has of its own is gone once it is read, and all that is left is written.

The floats of the set are the exception that must be named, since the shortest numeral of a float
need not be read as that float (`Schema.ReadsBack`).
-/
import Tabula.Migration.Set
import Tabula.Proofs.Schema.Records

namespace Tabula

open Tabula.Json Tabula.Schema

/-! ## 1. Migrations -/

theorem restores_migration {ρ : Type} (m : Migration) :
    Restores Migration.json (Migration.decode (ρ := ρ)) m := by
  obtain ⟨kind, table, column, extras⟩ := m
  have hextras := restores_dict fun e (_ : e ∈ extras.entries) => restores_text (ρ := ρ) e.2
  have hwritable := hextras.writable
  have hkind := (restores_word (ρ := ρ) (Migration.Kind.lookup_word kind)).decoded
  have htable := (restores_text (ρ := ρ) table).decoded
  have hempty : extras.isEmpty = true → .empty = extras := fun h =>
    (Dict.eq_empty_of_isEmpty h).symm
  -- A column name that is missing and extras that are empty are not written.
  constructor
  · cases column <;> cases h : extras.isEmpty <;> simp [Migration.json, h, hwritable]
  · refine bind_eq_ok.mpr ⟨_, recordFields_fields _ rfl ?_ (by decide), ?_⟩
    · cases column <;> cases extras.isEmpty <;> simp [List.cons_sublist_cons]
    · cases column <;> cases h : extras.isEmpty <;>
        simp [Fields.required, Fields.optional, List.lookup, Migration.decodeKind, hkind, htable,
          decodeOption_text, hextras.decoded, hempty, h]

/-! ## 2. Diffs -/

namespace SchemaDiff

/-- The flags of the diff repeat its kind.  For an object that is new or gone there is no other flag;
an object that stayed has neither flag. -/
def Agrees (d : SchemaDiff) : Prop :=
  match d.kind with
  | .created => d.flags = .created
  | .dropped => d.flags = .dropped
  | .changed => d.flags.contains .created = false ∧ d.flags.contains .dropped = false

theorem agrees_of_isConsistent {d : SchemaDiff} (h : d.isConsistent) : d.Agrees := by
  unfold isConsistent at h
  unfold Agrees
  cases hkind : d.kind with
  | created => simpa [hkind] using h
  | dropped => simpa [hkind] using h
  | changed =>
    have hbits : d.flags.bits &&& (128 ||| 256) = 0 := by
      simpa [hkind, ChangeFlags.intersects, ChangeFlags.union, ChangeFlags.created,
        ChangeFlags.dropped] using h
    have hcreated : d.flags.bits &&& 128 = 0 := by
      rw [show (128 : UInt16) = (128 ||| 256) &&& 128 by decide, ← UInt16.and_assoc, hbits]
      decide
    have hdropped : d.flags.bits &&& 256 = 0 := by
      rw [show (256 : UInt16) = (128 ||| 256) &&& 256 by decide, ← UInt16.and_assoc, hbits]
      decide
    simp [ChangeFlags.contains, ChangeFlags.created, ChangeFlags.dropped, hcreated, hdropped]

/-- A diff that agrees with itself is restored; no other could be read. -/
theorem restores {d : SchemaDiff} (h : d.isConsistent) :
    Restores SchemaDiff.json SchemaDiff.decode d := by
  have hattributes := restores_dict fun e (_ : e ∈ d.attributes.entries) =>
    restores_text (ρ := Refusal) e.2
  have hwritable := hattributes.writable
  have hflags : decodeFlags (ρ := Refusal) (.nat d.flags.bits.toNat) = .ok d.flags := by
    rw [decodeFlags, decodeNat_nat (UInt16.toNat_lt _)]
    simp
  have hobject := (restores_word (ρ := Refusal) (ObjectKind.lookup_word d.object)).decoded
  have hkind := (restores_word (ρ := Refusal) (ChangeKind.lookup_word d.kind)).decoded
  constructor
  · simp [SchemaDiff.json, hwritable, Json.nat]
  · refine bind_eq_ok.mpr ⟨_, recordFields_fields _ rfl (.refl _) (by decide), ?_⟩
    simp [Fields.required, Fields.optional, List.lookup, hobject, hkind, hflags,
      hattributes.decoded, h]

/-- What is read as a diff agrees with itself. -/
theorem ensures_isConsistent : Ensures SchemaDiff.decode fun d => d.isConsistent := by
  intro v d hv
  obtain ⟨fs, -, hv⟩ := bind_eq_ok.mp hv
  obtain ⟨object, -, hv⟩ := bind_eq_ok.mp hv
  obtain ⟨kind, -, hv⟩ := bind_eq_ok.mp hv
  obtain ⟨flags, -, hv⟩ := bind_eq_ok.mp hv
  obtain ⟨attributes, -, hv⟩ := bind_eq_ok.mp hv
  simp only at hv
  split at hv
  case isTrue h => cases hv; exact h
  case isFalse => cases hv

end SchemaDiff

/-! ## 3. Sets that are written -/

/-- The diffs of a source. -/
def MigrationSource.heldDiffs : MigrationSource → List SchemaDiff
  | .ordered _ => []
  | .diffs ds => ds.values.flatten

namespace MigrationSet

/-- The floats of the tables of a set. -/
def floats (set : MigrationSet) : List Float := set.target.values.flatMap Table.floats

theorem decodeVersion_number (version : SetVersion) :
    decodeVersion (.nat version.number.toNat) = .ok version := by
  rw [decodeVersion, decodeNat_nat (UInt8.toNat_lt _)]
  cases version <;> rfl

theorem restores_diffs {diffs : Dict (List SchemaDiff)}
    (h : ∀ d ∈ diffs.values.flatten, d.isConsistent) :
    Restores (fun diffs => .fields (diffs.entries.map fun e => (e.1, .array (e.2.map
      SchemaDiff.json)))) decodeDiffs diffs := by
  refine restores_dict fun e he => restores_list fun d hd => SchemaDiff.restores (h d ?_)
  exact List.mem_flatten.mpr ⟨e.2, List.mem_map_of_mem he, hd⟩

theorem restores_target {ρ : Type} {target : Dict Table} (level : Nat)
    (hfinite : ∀ t ∈ target.values, ∀ x ∈ t.floats, x.isFinite)
    (hreads : ∀ t ∈ target.values, ∀ x ∈ t.floats, ReadsBack x) :
    Restores (fun target => .fields (target.entries.map fun e => (e.1, e.2.json)))
      (decodeTarget (ρ := ρ) level) target :=
  restores_dict fun e he => restores_table _ (hfinite e.2 (List.mem_map_of_mem he))
    (hreads e.2 (List.mem_map_of_mem he))

/-- **A set is restored**, if its diffs agree with themselves and its floats are restored. -/
theorem restores {set : MigrationSet} (hdiffs : ∀ d ∈ set.source.heldDiffs, d.isConsistent)
    (hfinite : ∀ x ∈ set.floats, x.isFinite) (hreads : ∀ x ∈ set.floats, ReadsBack x) :
    Restores MigrationSet.json MigrationSet.decode set := by
  obtain ⟨source, target, dbVersion, version⟩ := set
  have htarget := restores_target (ρ := Refusal) 1
    (fun t (ht : t ∈ target.values) x hx => hfinite x (List.mem_flatMap.mpr ⟨t, ht, hx⟩))
    (fun t ht x hx => hreads x (List.mem_flatMap.mpr ⟨t, ht, hx⟩))
  have htargetWritable := htarget.writable
  have hdb : decodeNat (ρ := Refusal) UInt32.size (.nat dbVersion.toNat) = .ok dbVersion.toNat :=
    decodeNat_nat (UInt32.toNat_lt _)
  have hversion := decodeVersion_number version
  cases source with
  | ordered ms =>
    have hms := restores_list fun m (_ : m ∈ ms) => restores_migration (ρ := Refusal) m
    have hmsWritable := hms.writable
    have hordered := hms.decodeOption (by simp)
    constructor
    · simp [MigrationSet.json, sourceField, hmsWritable, htargetWritable, Json.nat,
        -isWritable_array]
    · refine bind_eq_ok.mpr ⟨⟨some ms, none, target, dbVersion, version⟩, ?_, rfl⟩
      rw [MigrationSet.json, takeRecord_fields ["ordered_migrations", "target_schema",
        "db_version", "set_version"] rfl (by decide) (by decide)]
      simp [sourceField, Draft.read, hordered, htarget.decoded, hdb, hversion, Draft.start]
  | diffs diffs =>
    have hds := restores_diffs hdiffs
    have hdsWritable := hds.writable
    have hdiffs := hds.decodeOption (by simp [fields])
    constructor
    · simp [MigrationSet.json, sourceField, hdsWritable, htargetWritable, Json.nat]
    · refine bind_eq_ok.mpr ⟨⟨none, some diffs, target, dbVersion, version⟩, ?_, rfl⟩
      rw [MigrationSet.json, takeRecord_fields ["diff_map", "target_schema",
        "db_version", "set_version"] rfl (by decide) (by decide)]
      simp [sourceField, Draft.read, hdiffs, htarget.decoded, hdb, hversion, Draft.start]

/-! ## 4. Sets that are read -/

/-- What the fields that were read so far have been checked for. -/
structure Draft.Sound (d : Draft) : Prop where
  consistent : ∀ diffs ∈ d.diffs, ∀ ds ∈ diffs.values, ∀ x ∈ ds, x.isConsistent
  finite : ∀ t ∈ d.target.values, ∀ x ∈ t.floats, x.isFinite

theorem sound_start : Draft.start.Sound where
  consistent := by simp [Draft.start]
  finite := by simp [Draft.start, Dict.values, Dict.empty]

/-- Each field is checked as it is read. -/
theorem sound_read {d d' : Draft} {name : String} {v : Json} (hd : d.Sound)
    (h : d.read name v = .ok d') : d'.Sound := by
  unfold Draft.read at h
  split at h
  case h_1 =>
    obtain ⟨ordered, -, h⟩ := bind_eq_ok.mp h
    cases h
    exact ⟨hd.consistent, hd.finite⟩
  case h_2 =>
    obtain ⟨diffs, hdiffs, h⟩ := bind_eq_ok.mp h
    cases h
    exact ⟨SchemaDiff.ensures_isConsistent.list.dict.option v diffs hdiffs, hd.finite⟩
  case h_3 =>
    obtain ⟨target, htarget, h⟩ := bind_eq_ok.mp h
    cases h
    exact ⟨hd.consistent, (ensures_table 2).dict v target htarget⟩
  case h_4 =>
    obtain ⟨dbVersion, -, h⟩ := bind_eq_ok.mp h
    cases h
    exact ⟨hd.consistent, hd.finite⟩
  case h_5 =>
    obtain ⟨version, -, h⟩ := bind_eq_ok.mp h
    cases h
    exact ⟨hd.consistent, hd.finite⟩
  case h_6 =>
    cases h
    exact hd

/-- The fields of a set, in the order in which an array lists them. -/
def fieldNames : List String :=
  ["ordered_migrations", "diff_map", "target_schema", "db_version", "set_version"]

/-- The fields that a record of a set gives. -/
def readDraft (v : Json) : Except (DocumentError Refusal) Draft :=
  takeRecord fieldNames Draft.read Draft.start v

/-- The fields give this source and no other. -/
def Draft.HasOnly (d : Draft) : MigrationSource → Prop
  | .ordered ms => d.ordered = some ms ∧ d.diffs = none
  | .diffs ds => d.ordered = none ∧ d.diffs = some ds

/-- A set is made of fields with one source, and of nothing else. -/
theorem draft_of_decode {v : Json} {set : MigrationSet} (h : decode v = .ok set) :
    ∃ d, readDraft v = .ok d ∧ d.Sound ∧ d.HasOnly set.source ∧ d.target = set.target := by
  obtain ⟨d, hd, h⟩ := bind_eq_ok.mp h
  have hsound : d.Sound := Ensures.record sound_read sound_start _ v d hd
  refine ⟨d, hd, hsound, ?_⟩
  have hparts := mapError_eq_ok.mp h
  unfold ofParts at hparts
  split at hparts
  case h_1 hordered hdiffs => cases hparts; exact ⟨⟨hordered, hdiffs⟩, rfl⟩
  case h_2 hordered hdiffs => cases hparts; exact ⟨⟨hordered, hdiffs⟩, rfl⟩
  case h_3 => cases hparts

/-- **A set that was read survives being written.**  Its record had exactly one source, its diffs
agree with their flags, and what is written for the set is read as the set. -/
theorem ofText_render {text : String} {set : MigrationSet} (h : ofText text = .ok set)
    (hreads : ∀ x ∈ set.floats, ReadsBack x) :
    (∃ d, readDraft (read text).1 = .ok d ∧ d.HasOnly set.source) ∧
      (∀ d ∈ set.source.heldDiffs, d.Agrees) ∧ ofText set.json.render = .ok set := by
  have hdecode := decode_of_decodeDocument (mapError_eq_ok.mp h)
  obtain ⟨d, hd, hsound, hsource, htarget⟩ := draft_of_decode hdecode
  have hconsistent : ∀ d ∈ set.source.heldDiffs, d.isConsistent := by
    intro x hx
    cases hset : set.source with
    | ordered ms => simp [hset, MigrationSource.heldDiffs] at hx
    | diffs ds =>
      rw [hset] at hx hsource
      obtain ⟨l, hl, hx⟩ := List.mem_flatten.mp hx
      exact hsound.consistent ds hsource.2 l hl x hx
  have hfinite : ∀ x ∈ set.floats, x.isFinite := by
    intro x hx
    obtain ⟨t, ht, hx⟩ := List.mem_flatMap.mp hx
    exact hsound.finite t (htarget ▸ ht) x hx
  refine ⟨⟨d, hd, hsource⟩, fun x hx => SchemaDiff.agrees_of_isConsistent (hconsistent x hx), ?_⟩
  exact mapError_eq_ok.mpr (restores hconsistent hfinite hreads).document

end MigrationSet

/-! ## 5. A set of an older kind -/

deriving instance DecidableEq for MigrationSet

/-- A document with a key on a column, records as arrays, and a member that nobody knows. -/
def ratingsText : String :=
  "\x7b\"note\":[],\"diff_map\":\x7b\"R\":[[\"TABLE\",\"CREATED\",128]]\x7d," ++
    "\"target_schema\":\x7b\"R\":[\"ratings\",[\x7b\"name\":\"id\",\"sql_type\":\"Integer\"," ++
    "\"primary_key\":true\x7d,\x7b\"name\":\"stars\",\"sql_type\":\"Real\"," ++
    "\"default\":\x7b\"Float\":25e-1\x7d\x7d]]\x7d\x7d"

/-- The set that it is read as. -/
def ratingsSet : MigrationSet :=
  { source := .diffs (Dict.empty.insert "R" [⟨.table, .created, .created, .empty⟩])
    target := Dict.empty.insert "R"
      { name := "ratings"
        columns := [.plain "id" .integer,
          { Column.plain "stars" .real with default := .float 2.5 }]
        primaryKey := ["id"]
        foreignKeys := []
        indexes := [] }
    dbVersion := 0
    version := .names }

/-- The set survives being written. -/
theorem ofText_render_ratingsSet :
    MigrationSet.ofText ratingsText = .ok ratingsSet ∧ (∀ x ∈ ratingsSet.floats, ReadsBack x) ∧
      MigrationSet.ofText ratingsSet.json.render = .ok ratingsSet := by
  have htext : MigrationSet.ofText ratingsText = .ok ratingsSet := by decide +kernel
  have hreads : ∀ x ∈ ratingsSet.floats, ReadsBack x := by
    have hfloats : ratingsSet.floats = [2.5] := by decide +kernel
    simpa [hfloats] using readsBack_two_and_a_half
  exact ⟨htext, hreads, (MigrationSet.ofText_render htext hreads).2.2⟩

end Tabula
