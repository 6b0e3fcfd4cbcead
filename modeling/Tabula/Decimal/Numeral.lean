/-
# Numerals

A numeral is a decimal number as it is written: a sign, a whole part without leading zeros,
fraction digits, and an exponent.  It keeps the writing apart from the value, so that `7`, `7.0`
and `7e0` are three numerals.  `Numeral.text` writes one, `Numeral.read?` takes one off the front
of a text, and `toInt?` and `toFloat?` give the values that a numeral may stand for.
-/
import Tabula.Decimal.Digits

namespace Tabula.Decimal

/-- A decimal number as written.  An empty fraction means that no point is written. -/
structure Numeral where
  negative : Bool
  whole : Nat
  fraction : List Digit
  exponent : Option Int
deriving DecidableEq, Repr

namespace Numeral

/-- The numeral of an integer. -/
def ofInt (n : Int) : Numeral := ⟨n < 0, n.natAbs, [], none⟩

/-! ## 1. Writing -/

/-- The sign of an exponent is always written. -/
def exponentText (e : Int) : String :=
  if e < 0 then "e-" ++ natText e.natAbs else "e+" ++ natText e.natAbs

/-- The numeral as text. -/
def text (n : Numeral) : String :=
  (if n.negative then "-" else "") ++ natText n.whole ++
    (if n.fraction = [] then "" else "." ++ digitsText n.fraction) ++
    (match n.exponent with
      | some e => exponentText e
      | none => "")

/-! ## 2. Reading -/

/-- The digits after a point; a point needs at least one. -/
def readFraction? : List Char → Option (List Digit × List Char)
  | '.' :: cs =>
    match takeDigits cs with
    | ([], _) => none
    | (ds, rest) => some (ds, rest)
  | cs => some ([], cs)

/-- The number after an exponent mark, with or without a sign; at least one digit. -/
def readPower? (cs : List Char) : Option (Int × List Char) :=
  let (negative, cs) :=
    match cs with
    | '-' :: cs => (true, cs)
    | '+' :: cs => (false, cs)
    | cs => (false, cs)
  match takeDigits cs with
  | ([], _) => none
  | (ds, rest) => some (if negative then -(ofDigits ds : Int) else (ofDigits ds : Int), rest)

/-- The exponent, if a mark begins one. -/
def readExponent? : List Char → Option (Option Int × List Char)
  | 'e' :: cs => (readPower? cs).map fun r => (some r.1, r.2)
  | 'E' :: cs => (readPower? cs).map fun r => (some r.1, r.2)
  | cs => some (none, cs)

/-- The whole part: at least one digit, and no zero in front of another digit. -/
def readWhole? (cs : List Char) : Option (Nat × List Char) :=
  match takeDigits cs with
  | ([], _) => none
  | (d :: ds, rest) => if d.val = 0 ∧ ds ≠ [] then none else some (ofDigits (d :: ds), rest)

/-- Takes a numeral off the front of a text. -/
def read? (cs : List Char) : Option (Numeral × List Char) := do
  let (negative, cs) :=
    match cs with
    | '-' :: cs => (true, cs)
    | cs => (false, cs)
  let (whole, cs) ← readWhole? cs
  let (fraction, cs) ← readFraction? cs
  let (exponent, cs) ← readExponent? cs
  return (⟨negative, whole, fraction, exponent⟩, cs)

/-! ## 3. Values -/

/-- The integer of a numeral written as one: no fraction, no exponent, and no negative zero. -/
def toInt? (n : Numeral) : Option Int :=
  if n.fraction = [] ∧ n.exponent = none ∧ ¬(n.negative = true ∧ n.whole = 0) then
    some (if n.negative then -(n.whole : Int) else (n.whole : Int))
  else none

/-- Takes up digits as long as the number they make fits 64 bits; gives the number and how many
digits were taken. -/
def takeUp : Nat → List Digit → Nat × Nat
  | significand, [] => (significand, 0)
  | significand, d :: ds =>
    if 10 * significand + d.val < UInt64.size then
      let r := takeUp (10 * significand + d.val) ds
      (r.1, r.2 + 1)
    else (significand, 0)

/-- The leading digits of a numeral as a number of 64 bits, and the power of ten to scale it by.
Whole digits that do not fit count as places; fraction digits that do not fit are left out. -/
def leading (n : Numeral) : Nat × Int :=
  let wholeDigits := digits n.whole
  let (lead, taken) := takeUp 0 wholeDigits
  let (significand, places) := takeUp lead n.fraction
  (significand, ((wholeDigits.length - taken : Nat) : Int) - places + n.exponent.getD 0)

/-- The power of ten with the given exponent. -/
def powerOfTen (e : Nat) : Float := Float.ofScientific 1 false e

/-- Scales a number by a power of ten with one multiplication or division; below the range of the
powers, in two divisions.  None when the result is too large. -/
def scaled? (x : Float) (e : Int) : Option Float :=
  if 0 ≤ e then
    if e ≤ 308 then
      let y := x * powerOfTen e.toNat
      if y.isInf then none else some y
    else if x == 0 then some x else none
  else if -308 ≤ e then some (x / powerOfTen (-e).toNat)
  else if -616 ≤ e then some (x / powerOfTen 308 / powerOfTen (-e - 308).toNat)
  else some 0

/-- The float that a numeral is read as: its leading digits, scaled.  None when out of range. -/
def toFloat? (n : Numeral) : Option Float :=
  let (significand, e) := n.leading
  (scaled? significand.toUInt64.toFloat e).map fun x => if n.negative then -x else x

end Numeral
end Tabula.Decimal
