/-
# Decoding documents

A decoder takes a JSON value for an element of a type, or reports the first problem in document
order.  Almost all problems count as one: the document is malformed.  Besides, a decoder may refuse
a value for a reason of its own, of some type `ρ`.

Records come as objects or as arrays.  In an object, members that the record does not know are
passed over, and one that it knows may not occur twice.  An array lists the fields in order; the
last ones may be missing if the record has a default for them.
-/
import Tabula.Dict
import Tabula.Json.Reader

namespace Tabula.Json

open Tabula.Decimal

/-- Why a document is not taken. -/
inductive DocumentError (ρ : Type) where
  | malformed
  | refused (reason : ρ)
deriving DecidableEq, Repr

/-- Takes a JSON value for an element of a type. -/
abbrev Decoder (ρ α : Type) := Json → Except (DocumentError ρ) α

variable {ρ α δ : Type}

/-- The document is malformed. -/
def malformed : Except (DocumentError ρ) α := .error .malformed

/-- What is there, or the document is malformed. -/
def require : Option α → Except (DocumentError ρ) α
  | some a => .ok a
  | none => malformed

/-! ## 1. Simple values -/

/-- A truth value. -/
def decodeBool : Decoder ρ Bool
  | bool b => .ok b
  | _ => malformed

/-- A text. -/
def decodeText : Decoder ρ String
  | string (some s) => .ok s
  | _ => malformed

/-- An integer, written as one, from `low` to `high`. -/
def decodeInt (low high : Int) : Decoder ρ Int
  | number n =>
    match n.toInt? with
    | some i => if low ≤ i ∧ i ≤ high then .ok i else malformed
    | none => malformed
  | _ => malformed

/-- A natural number below a bound, written as an integer. -/
def decodeNat (bound : Nat) (v : Json) : Except (DocumentError ρ) Nat :=
  (decodeInt 0 ((bound : Int) - 1) v).map Int.toNat

/-- A float, written as any number. -/
def decodeFloat : Decoder ρ Float
  | number n => require n.toFloat?
  | _ => malformed

/-- One of several words, alone or as the only key of an object with the value null. -/
def decodeWord (words : List (String × α)) : Decoder ρ α
  | string (some word) => require (words.lookup word)
  | object [(some word, null)] => require (words.lookup word)
  | _ => malformed

/-- What may be null. -/
def decodeOption (decode : Decoder ρ α) : Decoder ρ (Option α)
  | null => .ok none
  | v => (decode v).map some

/-- A list. -/
def decodeList (decode : Decoder ρ α) : Decoder ρ (List α)
  | array items => items.mapM decode
  | _ => malformed

/-- Enters members in a dictionary; of members with one key the last counts. -/
def enterMembers (decode : Decoder ρ α) :
    Dict α → List (Option String × Json) → Except (DocumentError ρ) (Dict α)
  | d, [] => .ok d
  | _, (none, _) :: _ => malformed
  | d, (some key, v) :: rest => do
    let a ← decode v
    enterMembers decode (d.insert key a) rest

/-- A dictionary. -/
def decodeDict (decode : Decoder ρ α) : Decoder ρ (Dict α)
  | object members => enterMembers decode .empty members
  | _ => malformed

/-! ## 2. Records -/

/-- Goes through the members of an object in order.  `step` takes those that are named, and `pass`
says whether another may be passed over. -/
def takeMembers (names : List String) (pass : Json → Bool)
    (step : δ → String → Json → Except (DocumentError ρ) δ) :
    List String → δ → List (Option String × Json) → Except (DocumentError ρ) δ
  | _, d, [] => .ok d
  | _, _, (none, _) :: _ => malformed
  | seen, d, (some key, v) :: rest =>
    if names.contains key then
      if seen.contains key then malformed
      else do
        let d ← step d key v
        takeMembers names pass step (key :: seen) d rest
    else if pass v then takeMembers names pass step seen d rest
    else malformed

/-- Goes through the items of an array in order, each under the name at its place. -/
def takeItems (step : δ → String → Json → Except (DocumentError ρ) δ) :
    List String → δ → List Json → Except (DocumentError ρ) δ
  | _, d, [] => .ok d
  | [], _, _ :: _ => malformed
  | name :: names, d, v :: rest => do
    let d ← step d name v
    takeItems step names d rest

/-- Goes through the fields of a record in document order, from an object or an array. -/
def takeRecord (names : List String) (step : δ → String → Json → Except (DocumentError ρ) δ)
    (start : δ) : Decoder ρ δ
  | object members => takeMembers names isWhole step [] start members
  | array items => takeItems step names start items
  | _ => malformed

/-- The fields of a record that a document gives. -/
abbrev Fields := List (String × Json)

/-- Puts a field to the others. -/
def collect (fs : Fields) (name : String) (v : Json) : Except (DocumentError ρ) Fields :=
  .ok (fs ++ [(name, v)])

/-- The fields of a record, from an object or an array. -/
def recordFields (names : List String) : Decoder ρ Fields := takeRecord names collect []

/-- The fields of a record that must be an object and whose members are all held until its end: what
is passed over must denote values too, within so many levels of nesting. -/
def heldFields (names : List String) (levels : Nat) : Decoder ρ Fields
  | object members => takeMembers names (isDenoted levels) collect [] [] members
  | _ => malformed

namespace Fields

/-- A field that must be there. -/
def required (fs : Fields) (name : String) (decode : Decoder ρ α) : Except (DocumentError ρ) α :=
  match fs.lookup name with
  | some v => decode v
  | none => malformed

/-- A field with a default. -/
def optional (fs : Fields) (name : String) (default : α) (decode : Decoder ρ α) :
    Except (DocumentError ρ) α :=
  match fs.lookup name with
  | some v => decode v
  | none => .ok default

end Fields

/-! ## 3. Documents -/

/-- Decodes a whole text; only space may follow the value. -/
def decodeDocument (decode : Decoder ρ α) (text : String) : Except (DocumentError ρ) α := do
  let (v, rest) := read text
  let a ← decode v
  if dropSpace rest = [] then return a else malformed

end Tabula.Json
