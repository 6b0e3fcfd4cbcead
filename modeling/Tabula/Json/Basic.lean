/-
# JSON values

A JSON value as it stands in a document.  Numbers are kept as written, and the members of an
object in their order with any repetitions, so that whoever reads the value decides what they mean.

A document may have problems of its own.  A text literal with an unpaired surrogate escape denotes
no text, so texts are optional.  Where a document stops being JSON, the value read so far ends in
`broken`; a reader of values that goes through them in order thus meets the first problem first.
-/
import Tabula.Decimal.Numeral

namespace Tabula

open Tabula.Decimal

/-- A JSON value, or as much of one as could be read. -/
inductive Json where
  | null
  | bool (b : Bool)
  | number (n : Numeral)
  | string (text : Option String)
  | array (items : List Json)
  | object (members : List (Option String × Json))
  | broken

namespace Json

/-- A text. -/
def text (s : String) : Json := string (some s)

/-- A natural number. -/
def nat (n : Nat) : Json := number (.ofInt n)

/-- A list of texts. -/
def texts (ss : List String) : Json := array (ss.map text)

/-- An object with these members. -/
def fields (members : List (String × Json)) : Json :=
  object (members.map fun m => (some m.1, m.2))

/-! ## 1. What values hold -/

mutual
/-- Whether nothing in the value is broken. -/
def isWhole : Json → Bool
  | array items => allWhole items
  | object members => allMembersWhole members
  | broken => false
  | _ => true

/-- Whether nothing in a list of values is broken. -/
def allWhole : List Json → Bool
  | [] => true
  | v :: vs => v.isWhole && allWhole vs

/-- Whether nothing in a list of members is broken. -/
def allMembersWhole : List (Option String × Json) → Bool
  | [] => true
  | m :: ms => m.2.isWhole && allMembersWhole ms
end

mutual
/-- Whether every literal in the value denotes a value: texts are texts, numbers are in the range of
floats, and arrays and objects are nested at most so many levels deep. -/
def isDenoted : Nat → Json → Bool
  | _, null => true
  | _, bool _ => true
  | _, number n => n.toFloat?.isSome
  | _, string s => s.isSome
  | levels, array items => 0 < levels && allDenoted (levels - 1) items
  | levels, object members => 0 < levels && allMembersDenoted (levels - 1) members
  | _, broken => false

/-- Whether every literal in a list of values denotes a value. -/
def allDenoted : Nat → List Json → Bool
  | _, [] => true
  | levels, v :: vs => v.isDenoted levels && allDenoted levels vs

/-- Whether every literal in a list of members denotes a value. -/
def allMembersDenoted : Nat → List (Option String × Json) → Bool
  | _, [] => true
  | levels, m :: ms => m.1.isSome && m.2.isDenoted levels && allMembersDenoted levels ms
end

end Json
end Tabula
