/-
# Values

What may be bound to a placeholder of a statement.  Every value but NULL has a text, and the text
is what reaches the engine.  A comparison treats empty text like NULL: it has nothing to compare
with (`Value.boundText?`).  A stored value keeps empty text (`Value.parameter?`).
-/
import Tabula.Calendar.Text
import Tabula.Decimal.Shortest

namespace Tabula

open Tabula.Calendar Tabula.Decimal

/-- A value to bind. -/
inductive Value where
  | null
  | bool (b : Bool)
  | int (n : Int64)
  | float (x : Float)
  | text (s : String)
  | date (d : DateTime)

namespace Value

/-- The text of a truth value. -/
def boolText (b : Bool) : String := if b then "1" else "0"

/-- The parameter of a stored value; none for NULL only. -/
def parameter? : Value → Option String
  | null => none
  | bool b => some (boolText b)
  | int n => some (intText n.toInt)
  | float x => some (floatText x)
  | text s => some s
  | date d => some d.text

/-- The text that a comparison binds; none for NULL and for empty text. -/
def boundText? : Value → Option String
  | text s => if s = "" then none else some s
  | v => v.parameter?

end Value

/-- Types whose elements may be bound. -/
class ToValue (α : Type) where
  toValue : α → Value

export ToValue (toValue)

instance : ToValue Value := ⟨id⟩
instance : ToValue Bool := ⟨.bool⟩
instance : ToValue Int64 := ⟨.int⟩
instance : ToValue Int32 := ⟨fun n => .int n.toInt64⟩
instance : ToValue Int16 := ⟨fun n => .int n.toInt64⟩
instance : ToValue Int8 := ⟨fun n => .int n.toInt64⟩
instance : ToValue UInt32 := ⟨fun n => .int (Int64.ofNat n.toNat)⟩
instance : ToValue UInt16 := ⟨fun n => .int (Int64.ofNat n.toNat)⟩
instance : ToValue UInt8 := ⟨fun n => .int (Int64.ofNat n.toNat)⟩
instance : ToValue Float := ⟨.float⟩
instance : ToValue Float32 := ⟨fun x => .float x.toFloat⟩
instance : ToValue String := ⟨.text⟩
instance : ToValue DateTime := ⟨.date⟩
instance : ToValue Day := ⟨fun d => .date d.start⟩

/-- What is missing is NULL. -/
instance {α : Type} [ToValue α] : ToValue (Option α) :=
  ⟨fun
    | some a => toValue a
    | none => .null⟩

end Tabula
