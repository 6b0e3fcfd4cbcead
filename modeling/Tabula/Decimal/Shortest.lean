/-
# The shortest decimal of a float

A finite float other than zero is `mantissa * 2 ^ exponent`, and every real between it and the
middle of the gap to either neighbour reads back to it; the middles themselves do when the
mantissa is even.  Among the decimals that read back, the shortest has the fewest digits and,
among those, lies nearest.  The search tries the decimal grids of one digit, two digits and so on
around the float.  On each grid only the two neighbours of the float can be a hit, since the reals
that read back form an interval around it.

`NumeralStyle` says how such a decimal is written: where positional writing ends, whether a whole
value shows a fraction, and which neighbour an exact tie takes.
-/
import Tabula.Decimal.Numeral

namespace Tabula.Decimal

/-! ## 1. Floats as exact numbers -/

/-- The magnitude of a finite float: `mantissa * 2 ^ exponent`.  The gap below the float is half
the gap above it when `narrowBelow` holds. -/
structure Magnitude where
  mantissa : Nat
  exponent : Int
  narrowBelow : Bool
deriving DecidableEq, Repr

/-- What the bits of a float stand for. -/
inductive FloatReading where
  | nan
  | infinite (negative : Bool)
  | finite (negative : Bool) (magnitude : Magnitude)
deriving DecidableEq, Repr

/-- Reads 64 bits: sign, eleven bits of exponent, 52 bits of fraction. -/
def FloatReading.ofBits (bits : Nat) : FloatReading :=
  let hidden := Nat.pow 2 52
  let negative := Nat.pow 2 63 ≤ bits
  let exponent : Nat := bits / hidden % Nat.pow 2 11
  let fraction := bits % hidden
  if exponent = 2047 then
    if fraction = 0 then .infinite negative else .nan
  else if exponent = 0 then .finite negative ⟨fraction, -1074, false⟩
  else .finite negative ⟨hidden + fraction, (exponent : Int) - 1075, fraction = 0 && 1 < exponent⟩

/-- What a float stands for. -/
def FloatReading.ofFloat (x : Float) : FloatReading := .ofBits x.toBits.toNat

/-! ## 2. The search -/

/-- `significand * 10 ^ exponent`. -/
structure Scientific where
  significand : Nat
  exponent : Int
deriving DecidableEq, Repr

/-- Which of two equally near decimals is taken. -/
inductive Tie where
  | up
  | even
deriving DecidableEq, Repr

/-- The power `base ^ e` as a factor of the numerator; one when the exponent is negative. -/
def factorUp (base : Nat) (e : Int) : Nat := base.pow e.toNat

/-- The power `base ^ e` as a divisor; one when the exponent is not negative. -/
def factorDown (base : Nat) (e : Int) : Nat := base.pow (-e).toNat

/-- The point of the grid of step `10 ^ k` that reads back to the float and lies nearest, as a
multiple of the step.  Everything is counted in quarters of the float's last place, so that the
float is four mantissas, and the ends of its interval are whole numbers too. -/
def gridHit (tie : Tie) (x : Magnitude) (k : Int) : Option Nat :=
  let up := factorUp 2 (x.exponent - 2) * factorDown 10 k
  let down := factorDown 2 (x.exponent - 2) * factorUp 10 k
  let middle := 4 * x.mantissa * up
  let low := (4 * x.mantissa - if x.narrowBelow then 1 else 2) * up
  let high := (4 * x.mantissa + 2) * up
  let reaches := fun a b : Nat => if x.mantissa % 2 = 0 then a ≤ b else a < b
  let d := middle / down
  let lower := reaches low (d * down)
  let upper := reaches ((d + 1) * down) high
  match decide lower, decide upper with
  | true, true =>
    match compare (2 * middle) ((2 * d + 1) * down) with
    | .lt => some d
    | .gt => some (d + 1)
    | .eq => some (if tie = .even ∧ d % 2 = 0 then d else d + 1)
  | true, false => some d
  | false, true => some (d + 1)
  | false, false => none

/-- The exponent of the leading digit of the quotient of two positive numbers. -/
def leadingExponent (num den : Nat) : Int :=
  if den ≤ num then ((digits (num / den)).length : Int) - 1
  else
    let t := (digits den).length - (digits num).length
    if den ≤ num * Nat.pow 10 t then -(t : Int) else -(t : Int) - 1

/-- The same number without zeros at the end of its significand. -/
def Scientific.stripped (d : Scientific) : Scientific :=
  if h : d.significand ≠ 0 ∧ d.significand % 10 = 0 then
    Scientific.stripped ⟨d.significand / 10, d.exponent + 1⟩
  else d
termination_by d.significand
decreasing_by omega

/-- The shortest decimal that reads back.  Seventeen digits always suffice. -/
def shortest (tie : Tie) (x : Magnitude) : Scientific :=
  if x.mantissa = 0 then ⟨0, 0⟩
  else
    let lead := leadingExponent (x.mantissa * factorUp 2 x.exponent) (factorDown 2 x.exponent)
    let hit := (List.range 17).findSome? fun (n : Nat) =>
      let k := lead - (n : Int)
      (gridHit tie x k).map fun d => (⟨d, k⟩ : Scientific)
    (hit.getD ⟨0, 0⟩).stripped

/-! ## 3. Writing -/

/-- How a shortest decimal is written. -/
structure NumeralStyle where
  /-- The exponents of the leading digit for which no exponent is written. -/
  positional : Int → Bool
  /-- Whether a whole value written without exponent shows a fraction of one zero. -/
  showsFraction : Bool
  tie : Tie

namespace NumeralStyle

/-- Without exponent: the digits with the point at its place. -/
def plain (style : NumeralStyle) (negative : Bool) (d : Scientific) : Numeral :=
  if 0 ≤ d.exponent then
    let fraction := if style.showsFraction then digits 0 else []
    ⟨negative, d.significand * factorUp 10 d.exponent, fraction, none⟩
  else
    let places := (-d.exponent).toNat
    let scale := Nat.pow 10 places
    ⟨negative, d.significand / scale, padDigits places (digits (d.significand % scale)), none⟩

/-- With exponent: one digit, the others as its fraction. -/
def powered (negative : Bool) (d : Scientific) : Numeral :=
  let ds := digits d.significand
  ⟨negative, ofDigits (ds.take 1), ds.drop 1, some (d.exponent + (ds.drop 1).length)⟩

/-- The numeral of a finite magnitude. -/
def numeral (style : NumeralStyle) (negative : Bool) (x : Magnitude) : Numeral :=
  let d := shortest style.tie x
  if style.positional (d.exponent + ((digits d.significand).length - 1 : Nat)) then
    style.plain negative d
  else powered negative d

/-- The numeral of a float; none for the infinities and for what is not a number. -/
def ofFloat? (style : NumeralStyle) (x : Float) : Option Numeral :=
  match FloatReading.ofFloat x with
  | .finite negative magnitude => some (style.numeral negative magnitude)
  | _ => none

end NumeralStyle

/-- Never an exponent, and no point on a whole value; a tie goes up. -/
def positionalStyle : NumeralStyle := ⟨fun _ => true, false, .up⟩

/-- A float as positional text. -/
def floatText (x : Float) : String :=
  match FloatReading.ofFloat x with
  | .nan => "NaN"
  | .infinite negative => if negative then "-inf" else "inf"
  | .finite negative magnitude => (positionalStyle.numeral negative magnitude).text

end Tabula.Decimal
