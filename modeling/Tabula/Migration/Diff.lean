/-
# Schema diffs

A diff says what became of one object of a schema.  Its flags repeat the kind of change for an
object that is new or gone; for one that stayed they say which attributes changed.  A document
whose flags contradict the kind of change is refused.
-/
import Tabula.Migration.Basic

namespace Tabula

open Tabula.Json

/-- The key of the attribute that holds the current name of the object. -/
def currentName : String := "c_name"

/-- The key of the attribute that holds the previous name of the object. -/
def previousName : String := "p_name"

/-- What became of one object. -/
structure SchemaDiff where
  object : ObjectKind
  kind : ChangeKind
  flags : ChangeFlags
  attributes : Dict String
deriving DecidableEq

namespace SchemaDiff

/-- A new object. -/
def created (object : ObjectKind) (name : String) : SchemaDiff :=
  ⟨object, .created, .created, Dict.empty.insert currentName name⟩

/-- An object that is gone. -/
def dropped (object : ObjectKind) (name : String) : SchemaDiff :=
  ⟨object, .dropped, .dropped, Dict.empty.insert previousName name⟩

/-- An object some of whose attributes changed. -/
def changed (object : ObjectKind) (name : String) (flags : ChangeFlags) : SchemaDiff :=
  ⟨object, .changed, flags, Dict.empty.insert currentName name⟩

/-- Adds an attribute. -/
def withAttribute (d : SchemaDiff) (key value : String) : SchemaDiff :=
  { d with attributes := d.attributes.insert key value }

/-- The name of the object: the current one, else the previous one. -/
def name? (d : SchemaDiff) : Option String :=
  d.attributes.get? currentName <|> d.attributes.get? previousName

/-- Whether the flags agree with the kind of change. -/
def isConsistent (d : SchemaDiff) : Bool :=
  match d.kind with
  | .created => d.flags == .created
  | .dropped => d.flags == .dropped
  | .changed => !d.flags.intersects (.union .created .dropped)

/-- The diff with what it knows of the table before, as extras of a migration. -/
def copyExtras (d : SchemaDiff) (m : Migration) : Migration :=
  [Migration.previousColumns, Migration.previousForeignKeys].foldl (fun m key =>
    match d.attributes.get? key with
    | some value => m.withExtra key value
    | none => m) m

/-! ## 1. Records -/

/-- A diff as a record. -/
def json (d : SchemaDiff) : Json :=
  .fields [("category", .text d.object.word), ("type", .text d.kind.word),
    ("sub_type", .nat d.flags.bits.toNat),
    ("attributes", .fields (d.attributes.entries.map fun e => (e.1, .text e.2)))]

/-- Flags from a number of sixteen bits. -/
def decodeFlags {ρ : Type} (v : Json) : Except (DocumentError ρ) ChangeFlags :=
  (decodeNat UInt16.size v).map fun n => ⟨UInt16.ofNat n⟩

/-- A diff from a record. -/
def decode (v : Json) : Except (DocumentError Refusal) SchemaDiff := do
  let fs ← recordFields ["category", "type", "sub_type", "attributes"] v
  let d : SchemaDiff := {
    object := ← fs.required "category" (decodeWord ObjectKind.words)
    kind := ← fs.required "type" (decodeWord ChangeKind.words)
    flags := ← fs.required "sub_type" decodeFlags
    attributes := ← fs.optional "attributes" .empty (decodeDict decodeText) }
  if d.isConsistent then return d else .error (.refused (.invalidFlags d.kind d.flags))

end SchemaDiff
end Tabula
