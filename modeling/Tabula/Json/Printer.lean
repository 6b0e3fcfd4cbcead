/-
# Writing JSON

Values are written without white space, and the members of an object in their order.  In a text,
quotes, backslashes and control characters are escaped, the usual ones by a letter and the others
by their number; every other character stands for itself.
-/
import Tabula.Json.Basic

namespace Tabula.Json

open Tabula.Decimal

/-- A digit to base sixteen, in lower case. -/
def hexChar (n : Nat) : Char :=
  if n < 10 then Char.ofNat (48 + n) else Char.ofNat (87 + n)

/-- A character as it stands in a text literal. -/
def escapeChar (c : Char) : List Char :=
  if c = '"' then ['\\', '"']
  else if c = '\\' then ['\\', '\\']
  else if c = '\x08' then ['\\', 'b']
  else if c = '\t' then ['\\', 't']
  else if c = '\n' then ['\\', 'n']
  else if c = '\x0c' then ['\\', 'f']
  else if c = '\r' then ['\\', 'r']
  else if c.toNat < 0x20 then
    ['\\', 'u', '0', '0', hexChar (c.toNat / 16), hexChar (c.toNat % 16)]
  else [c]

/-- A text literal. -/
def textChars (s : String) : List Char :=
  '"' :: s.toList.flatMap escapeChar ++ ['"']

mutual
/-- The characters of a value. -/
def chars : Json → List Char
  | null => "null".toList
  | bool b => (if b then "true" else "false").toList
  | number n => n.text.toList
  | string s => textChars (s.getD "")
  | array items => '[' :: itemsChars items ++ [']']
  | object members => '\x7b' :: membersChars members ++ ['\x7d']
  | broken => []

/-- The characters of a list of values, separated by commas. -/
def itemsChars : List Json → List Char
  | [] => []
  | [v] => v.chars
  | v :: vs => v.chars ++ ',' :: itemsChars vs

/-- The characters of a list of members, separated by commas. -/
def membersChars : List (Option String × Json) → List Char
  | [] => []
  | [m] => textChars (m.1.getD "") ++ ':' :: m.2.chars
  | m :: ms => textChars (m.1.getD "") ++ ':' :: m.2.chars ++ ',' :: membersChars ms
end

/-- The value as a document. -/
def render (v : Json) : String := String.ofList v.chars

end Tabula.Json
