/-
# Reading JSON

The reader takes a value off the front of a text.  It is strict: no comments, no trailing commas,
no leading zeros, no control characters in text literals.  It never fails; where the text stops
being JSON, the value it gives ends in `broken` and nothing is left of the text.
-/
import Tabula.Json.Basic

namespace Tabula.Json

open Tabula.Decimal

/-! ## 1. Space -/

/-- The characters that may stand between tokens. -/
def isSpace (c : Char) : Bool := c == ' ' || c == '\t' || c == '\n' || c == '\r'

/-- The text without the space it begins with. -/
def dropSpace (cs : List Char) : List Char := cs.dropWhile isSpace

/-! ## 2. Text literals -/

/-- A piece of a text literal: a character, or an escaped surrogate. -/
inductive Piece where
  | char (c : Char)
  | surrogate (unit : Nat)
deriving DecidableEq, Repr

/-- A digit to base sixteen, in either case. -/
def hexDigit? (c : Char) : Option Nat :=
  if '0' ≤ c ∧ c ≤ '9' then some (c.toNat - 48)
  else if 'a' ≤ c ∧ c ≤ 'f' then some (c.toNat - 87)
  else if 'A' ≤ c ∧ c ≤ 'F' then some (c.toNat - 55)
  else none

/-- The piece that four digits to base sixteen stand for. -/
def hexPiece? (a b c d : Char) : Option Piece := do
  let unit := ((← hexDigit? a) * 16 + (← hexDigit? b)) * 256 + ((← hexDigit? c) * 16 + (← hexDigit? d))
  return if 0xD800 ≤ unit ∧ unit < 0xE000 then .surrogate unit else .char (Char.ofNat unit)

/-- The character that a letter after a backslash stands for. -/
def letterEscape? : Char → Option Char
  | '"' => some '"'
  | '\\' => some '\\'
  | '/' => some '/'
  | 'b' => some '\x08'
  | 'f' => some '\x0c'
  | 'n' => some '\n'
  | 'r' => some '\r'
  | 't' => some '\t'
  | _ => none

/-- Puts a piece in front of what was read. -/
def consPiece {α : Type} (p : Piece) : Option (List Piece × α) → Option (List Piece × α)
  | some (ps, rest) => some (p :: ps, rest)
  | none => none

/-- The pieces of a text literal up to its closing quote, and the text after it. -/
def readPieces? : List Char → Option (List Piece × List Char)
  | [] => none
  | '"' :: rest => some ([], rest)
  | '\\' :: 'u' :: a :: b :: c :: d :: rest =>
    match hexPiece? a b c d with
    | some p => consPiece p (readPieces? rest)
    | none => none
  | '\\' :: e :: rest =>
    match letterEscape? e with
    | some c => consPiece (.char c) (readPieces? rest)
    | none => none
  | c :: rest =>
    if c = '\\' ∨ c.toNat < 0x20 then none else consPiece (.char c) (readPieces? rest)

/-- The text that pieces denote.  A high surrogate needs a low one right after it, and a low one a
high one right before it. -/
def denoted? : List Piece → Option (List Char)
  | [] => some []
  | .char c :: ps => (denoted? ps).map (c :: ·)
  | .surrogate high :: .surrogate low :: ps =>
    if high < 0xDC00 ∧ 0xDC00 ≤ low then
      (denoted? ps).map (Char.ofNat ((high - 0xD800) * 0x400 + (low - 0xDC00) + 0x10000) :: ·)
    else none
  | .surrogate _ :: _ => none

/-- Reads a text literal after its opening quote: the text, if it denotes one, and what follows. -/
def readText? (cs : List Char) : Option (Option String × List Char) :=
  (readPieces? cs).map fun r => ((denoted? r.1).map String.ofList, r.2)

/-! ## 3. Values -/

/-- A key, after any space, up to and with its colon. -/
def readKey? (cs : List Char) : Option (Option String × List Char) :=
  match dropSpace cs with
  | '"' :: cs =>
    match readText? cs with
    | some (key, cs) =>
      match dropSpace cs with
      | ':' :: cs => some (key, cs)
      | _ => none
    | none => none
  | _ => none

/-- A member that could not be read. -/
def brokenMember : Option String × Json := (none, broken)

mutual
/-- Reads a value, after any space.  The number bounds the depth of the recursion. -/
def readValue : Nat → List Char → Json × List Char
  | 0, _ => (broken, [])
  | fuel + 1, cs =>
    match dropSpace cs with
    | 'n' :: 'u' :: 'l' :: 'l' :: rest => (null, rest)
    | 't' :: 'r' :: 'u' :: 'e' :: rest => (bool true, rest)
    | 'f' :: 'a' :: 'l' :: 's' :: 'e' :: rest => (bool false, rest)
    | '"' :: rest =>
      match readText? rest with
      | some (s, rest) => (string s, rest)
      | none => (broken, [])
    | '[' :: rest =>
      match dropSpace rest with
      | ']' :: rest => (array [], rest)
      | rest =>
        let r := readItems fuel rest
        (array r.1, r.2)
    | '\x7b' :: rest =>
      match dropSpace rest with
      | '\x7d' :: rest => (object [], rest)
      | rest =>
        let r := readMembers fuel rest
        (object r.1, r.2)
    | cs =>
      match Numeral.read? cs with
      | some (n, rest) => (number n, rest)
      | none => (broken, [])

/-- Reads the values of an array, one or more, up to its closing bracket. -/
def readItems : Nat → List Char → List Json × List Char
  | 0, _ => ([broken], [])
  | fuel + 1, cs =>
    let v := readValue fuel cs
    match dropSpace v.2 with
    | ',' :: rest =>
      let r := readItems fuel rest
      (v.1 :: r.1, r.2)
    | ']' :: rest => ([v.1], rest)
    | _ => ([v.1, broken], [])

/-- Reads the members of an object, one or more, up to its closing brace. -/
def readMembers : Nat → List Char → List (Option String × Json) × List Char
  | 0, _ => ([brokenMember], [])
  | fuel + 1, cs =>
    match readKey? cs with
    | none => ([brokenMember], [])
    | some (key, rest) =>
      let v := readValue fuel rest
      match dropSpace v.2 with
      | ',' :: rest =>
        let r := readMembers fuel rest
        ((key, v.1) :: r.1, r.2)
      | '\x7d' :: rest => ([(key, v.1)], rest)
      | _ => ([(key, v.1), brokenMember], [])
end

/-- Reads the value that a text begins with; gives the text after it.  Every step of the recursion
takes a character, so the length of the text bounds its depth. -/
def read (text : String) : Json × List Char :=
  readValue (text.toList.length + 1) text.toList

end Tabula.Json
