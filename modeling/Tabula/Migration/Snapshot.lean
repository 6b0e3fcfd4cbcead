/-
# Snapshots of a table

What a table looked like before a migration, as texts that travel with the migration: a list of
column names, and a list of foreign keys.
-/
import Tabula.Migration.Error
import Tabula.Schema.Record

namespace Tabula.Snapshot

open Tabula.Json Tabula.Schema

/-- Column names as a text. -/
def encodeColumns (columns : List String) : String := (Json.texts columns).render

/-- Foreign keys as a text. -/
def encodeForeignKeys (keys : List ForeignKey) : String :=
  (Json.array (keys.map ForeignKey.json)).render

/-- Column names from a text. -/
def decodeColumns (text : String) : Except MigrationError (List String) :=
  (decodeDocument (decodeList decodeText) text).mapError .document

/-- Foreign keys from a text. -/
def decodeForeignKeys (text : String) : Except MigrationError (List ForeignKey) :=
  (decodeDocument (decodeList ForeignKey.decode) text).mapError .document

end Tabula.Snapshot
