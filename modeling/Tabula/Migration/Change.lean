/-
# Changes of schema objects

The words in which a comparison of two schemas reports a change: what kind of object it is, what
became of it, and, for an object that stayed, which of its attributes changed.  The attributes are
a set of flags in sixteen bits.
-/
namespace Tabula

/-- What kind of object changed. -/
inductive ObjectKind where
  | table
  | column
  | primaryKey
  | foreignKey
  | index
deriving DecidableEq, Repr

namespace ObjectKind

/-- The kinds of object by their names in records. -/
def words : List (String × ObjectKind) :=
  [("TABLE", table), ("COLUMN", column), ("PRIMARY_KEY", primaryKey), ("FOREIGN_KEY", foreignKey),
   ("INDEX", index)]

/-- The name of a kind of object in records. -/
def word : ObjectKind → String
  | table => "TABLE"
  | column => "COLUMN"
  | primaryKey => "PRIMARY_KEY"
  | foreignKey => "FOREIGN_KEY"
  | index => "INDEX"

theorem lookup_word (k : ObjectKind) : words.lookup k.word = some k := by cases k <;> decide

/-- The name of a kind of object in error messages. -/
def title : ObjectKind → String
  | table => "Table"
  | column => "Column"
  | primaryKey => "PrimaryKey"
  | foreignKey => "ForeignKey"
  | index => "Index"

end ObjectKind

/-- What became of an object. -/
inductive ChangeKind where
  | created
  | changed
  | dropped
deriving DecidableEq, Repr

namespace ChangeKind

/-- The changes by their names in records. -/
def words : List (String × ChangeKind) :=
  [("CREATED", created), ("CHANGED", changed), ("DROPPED", dropped)]

/-- The name of a change in records. -/
def word : ChangeKind → String
  | created => "CREATED"
  | changed => "CHANGED"
  | dropped => "DROPPED"

theorem lookup_word (k : ChangeKind) : words.lookup k.word = some k := by cases k <;> decide

/-- The name of a change in error messages. -/
def title : ChangeKind → String
  | created => "Created"
  | changed => "Changed"
  | dropped => "Dropped"

end ChangeKind

/-- A set of flags. -/
structure ChangeFlags where
  bits : UInt16
deriving DecidableEq, Repr

namespace ChangeFlags

/-- The name changed. -/
def name : ChangeFlags := ⟨1⟩

/-- The type changed. -/
def type : ChangeFlags := ⟨2⟩

/-- The columns that belong to the object changed. -/
def columns : ChangeFlags := ⟨4⟩

/-- The sort order changed. -/
def sort : ChangeFlags := ⟨8⟩

/-- The target of a foreign key changed. -/
def foreignKey : ChangeFlags := ⟨16⟩

/-- A constraint changed. -/
def constraint : ChangeFlags := ⟨32⟩

/-- The default changed. -/
def default : ChangeFlags := ⟨64⟩

/-- The object is new. -/
def created : ChangeFlags := ⟨128⟩

/-- The object is gone. -/
def dropped : ChangeFlags := ⟨256⟩

/-- All single flags. -/
def all : List ChangeFlags :=
  [name, type, columns, sort, foreignKey, constraint, default, created, dropped]

/-- The flags of either set. -/
def union (a b : ChangeFlags) : ChangeFlags := ⟨a.bits ||| b.bits⟩

/-- Whether all flags of `b` are set. -/
def contains (a b : ChangeFlags) : Bool := a.bits &&& b.bits == b.bits

/-- Whether some flag of `b` is set. -/
def intersects (a b : ChangeFlags) : Bool := a.bits &&& b.bits != 0

/-- The bits from the highest that is set to the lowest, and no fewer than nine of them. -/
def digits (f : ChangeFlags) : List Bool :=
  let bits := (List.range 16).reverse.map f.bits.toNat.testBit
  let lead := bits.dropWhile (! ·)
  List.replicate (9 - lead.length) false ++ lead

/-- The set as a binary number. -/
def text (f : ChangeFlags) : String :=
  "0b" ++ String.ofList (f.digits.map fun b => if b then '1' else '0')

end ChangeFlags
end Tabula
