/-
# Snapshots come back as they were

The columns and the foreign keys that a table had travel with a migration as texts.  Whatever the
names are made of, such a text is read as the list that it was written for
(`decode_encode_snapshots`), so a table that is rebuilt gets the very columns that it shares with
the old one, and a foreign key is reported as lost exactly if the new table does not have it
(`rebuild_of_snapshots`).
-/
import Tabula.Migration.Plan
import Tabula.Proofs.Schema.Records

namespace Tabula

open Tabula.Json Tabula.Schema

namespace Snapshot

/-! ## 1. Texts -/

theorem decodeColumns_encodeColumns (columns : List String) :
    decodeColumns (encodeColumns columns) = .ok columns := by
  rw [decodeColumns, encodeColumns, (Json.restores_texts columns).document]
  rfl

theorem decodeForeignKeys_encodeForeignKeys (keys : List ForeignKey) :
    decodeForeignKeys (encodeForeignKeys keys) = .ok keys := by
  have hkeys := restores_list fun k (_ : k ∈ keys) => restores_foreignKey (ρ := Refusal) k
  rw [decodeForeignKeys, encodeForeignKeys, hkeys.document]
  rfl

/-- **A list of columns and a list of foreign keys are read from their own texts.** -/
theorem decode_encode_snapshots :
    (∀ columns : List String, decodeColumns (encodeColumns columns) = .ok columns) ∧
      ∀ keys : List ForeignKey, decodeForeignKeys (encodeForeignKeys keys) = .ok keys :=
  ⟨decodeColumns_encodeColumns, decodeForeignKeys_encodeForeignKeys⟩

/-- Quotes, backslashes and control characters are written as escapes. -/
example : encodeColumns ["a\"b", "\\ü\n", "\x01"] = "[\"a\\\"b\",\"\\\\ü\\n\",\"\\u0001\"]" := by
  decide +kernel

end Snapshot

/-! ## 2. Rebuilding -/

namespace Migration

variable {m : Migration} {s : Shape} {previous : List String} {keys : List ForeignKey}

theorem copiedColumns_of_snapshot
    (h : m.extras.get? previousColumns = some (Snapshot.encodeColumns previous)) :
    m.copiedColumns s = .ok (s.table.columnNames.filter previous.contains) := by
  simp only [copiedColumns, h, Snapshot.decodeColumns_encodeColumns, ok_bind, pure_eq_ok]

/-- Foreign keys are reported if one of them is not among those of the new table, with the number of
those that are not. -/
theorem lostKeys_of_snapshot
    (h : m.extras.get? previousForeignKeys = some (Snapshot.encodeForeignKeys keys)) :
    m.lostKeys s = .ok (if keys ⊆ s.table.foreignKeys then none
      else some ⟨s.table.name, keys.countP fun k => k ∉ s.table.foreignKeys⟩) := by
  have hcount : keys.countP (fun k => k ∉ s.table.foreignKeys) = 0 ↔
      keys ⊆ s.table.foreignKeys := by
    simp [List.countP_eq_zero, List.subset_def]
  have hcontains : (fun k => !s.table.foreignKeys.contains k) =
      fun k => decide (k ∉ s.table.foreignKeys) := by
    funext k
    simp
  simp only [lostKeys, h, Snapshot.decodeForeignKeys_encodeForeignKeys, ok_bind, pure_eq_ok,
    hcontains, hcount]

/-- **A table is rebuilt from its snapshots without fail**: the columns that it shares with the old
one are copied, and lost foreign keys are reported. -/
theorem rebuild_of_snapshots
    (hcolumns : m.extras.get? previousColumns = some (Snapshot.encodeColumns previous))
    (hkeys : m.extras.get? previousForeignKeys = some (Snapshot.encodeForeignKeys keys)) :
    m.rebuild s = .ok ⟨rebuildStatements s.table (s.table.columnNames.filter previous.contains),
      if keys ⊆ s.table.foreignKeys then none
      else some ⟨s.table.name, keys.countP fun k => k ∉ s.table.foreignKeys⟩⟩ := by
  rw [rebuild, copiedColumns_of_snapshot hcolumns, ok_bind, lostKeys_of_snapshot hkeys, ok_bind,
    pure_eq_ok]

end Migration

end Tabula
