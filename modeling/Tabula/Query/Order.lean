/-
# Orders

An order is a list of sort keys, the most significant first.  A caller may also hand in an order
as text; to turn such a text around, every word of it that is a direction is replaced by the
opposite one (`invertOrderText`).  Words end at blanks and commas, which stay as they are.
-/
import Tabula.Query.Error
import Tabula.Query.Predicate
import Tabula.Text.Blank
import Tabula.Text.Words

namespace Tabula.Query

open Tabula.Text

/-! ## 1. Directions -/

/-- Ascending or descending. -/
inductive Direction where
  | asc
  | desc
deriving DecidableEq, Repr

namespace Direction

/-- The keyword of a direction. -/
def text : Direction → String
  | asc => "ASC"
  | desc => "DESC"

/-- The opposite direction. -/
def opposite : Direction → Direction
  | asc => desc
  | desc => asc

@[simp] theorem opposite_opposite (d : Direction) : d.opposite.opposite = d := by
  cases d <;> rfl

/-- The direction that a word names, in upper or lower case. -/
def ofWord? (word : List Char) : Option Direction :=
  let upper := word.map Char.toUpper
  if upper = asc.text.toList then some asc
  else if upper = desc.text.toList then some desc
  else none

/-- The direction that a text names. -/
def ofKeyword? (word : String) : Option Direction := ofWord? word.toList

end Direction

/-! ## 2. Sort keys -/

/-- A column and the direction to sort it in. -/
structure SortKey where
  column : ColumnRef
  direction : Direction
deriving DecidableEq, Repr

/-- The key as SQL. -/
def SortKey.text (k : SortKey) : String := k.column.text ++ " " ++ k.direction.text

/-- Sort keys, the most significant first.  A column may occur more than once. -/
structure Order where
  keys : List SortKey
deriving DecidableEq, Repr

namespace Order

/-- No order. -/
def empty : Order := ⟨[]⟩

/-- Adds a least significant key. -/
def push (o : Order) (column : ColumnRef) (d : Direction) : Order := ⟨o.keys ++ [⟨column, d⟩]⟩

/-- The order of columns of one table, each with its direction. -/
def ofColumns (table : String) (columns : List String) (directions : List Direction) :
    Except QueryError Order :=
  (pairUp .columnsDirections columns directions).map fun ps =>
    ⟨ps.map fun p => ⟨⟨table, p.1⟩, p.2⟩⟩

/-- The keys as SQL, separated by commas. -/
def text (o : Order) : String := String.intercalate ", " (o.keys.map SortKey.text)

end Order

/-! ## 3. Orders given as text -/

/-- Words of an order end at blanks and commas. -/
def endsWord (c : Char) : Bool := c == ',' || isBlank c

/-- The opposite of a word that is a direction; any other word stays. -/
def invertWord (word : List Char) : List Char :=
  match Direction.ofWord? word with
  | some d => d.opposite.text.toList
  | none => word

/-- Turns every direction of an order around. -/
def invertOrderText (order : String) : String :=
  String.ofList ((Words.ofChars endsWord order.toList).map invertWord).chars

/-- The order that a query over a table has, given the one asked for.  Without any, rows come in
the order of their identifiers.  To get at the last rows, the order is turned around. -/
def resolveOrder (table explicit : String) (last : Bool) : String :=
  let explicit := trim explicit
  if explicit = "" then
    (SortKey.mk (rowid table) (if last then .desc else .asc)).text
  else if last then invertOrderText explicit
  else explicit

end Tabula.Query
