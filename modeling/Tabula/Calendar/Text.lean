/-
# The text of a date

Dates are written and read in one form, `2024-02-29 13:05:09.042`.  Each field has a fixed width,
except that a year outside 0 to 9999 has a sign and as many digits as it needs.  Fractions of a
second are cut to milliseconds, and a leap second is written as second 60.

The reader goes from left to right and stops at the first problem.  It is a little more liberal
than the writer: blanks may stand before a number, leading zeros may be missing, and so may the
fraction.
-/
import Tabula.Calendar.DateTime
import Tabula.Decimal.Digits
import Tabula.Text.Blank

namespace Tabula.Calendar

open Tabula.Text Tabula.Decimal

/-! ## 1. Writing -/

/-- The year, with four digits or more. -/
def yearText (year : Int) : String :=
  if 0 ≤ year ∧ year ≤ 9999 then paddedText 4 year.toNat
  else (if year < 0 then "-" else "+") ++ paddedText 4 year.natAbs

/-- Year, month and day, joined by hyphens. -/
def Day.text (d : Day) : String :=
  yearText d.year ++ "-" ++ paddedText 2 d.month ++ "-" ++ paddedText 2 d.day

/-- Hour, minute and second, joined by colons, then milliseconds. -/
def Clock.text (c : Clock) : String :=
  paddedText 2 c.hour ++ ":" ++ paddedText 2 c.minute ++ ":" ++
    paddedText 2 (c.second + c.nanosecond / nanosPerSecond) ++ "." ++
    paddedText 3 (c.nanosecond % nanosPerSecond / 1000000)

/-- The day, a space and the time. -/
def DateTime.text (d : DateTime) : String := d.day.text ++ " " ++ d.clock.text

/-! ## 2. Reading -/

/-- Why a text is not a date. -/
inductive ReadError where
  | outOfRange
  | invalid
  | tooShort
  | tooLong
deriving DecidableEq, Repr

/-- The wording of a problem. -/
def ReadError.message : ReadError → String
  | outOfRange => "input is out of range"
  | invalid => "input contains invalid characters"
  | tooShort => "premature end of input"
  | tooLong => "trailing input"

/-- One digit or more, as many as `digits` finds. -/
def someDigits (ds : List Digit) (cs : List Char) : Except ReadError (Nat × List Char) :=
  if ds = [] then .error (if cs = [] then .tooShort else .invalid)
  else .ok (ofDigits ds, cs.drop ds.length)

/-- A number of at most `width` digits, after any blanks, from `low` to `high`. -/
def readNumber (width low high : Nat) (cs : List Char) : Except ReadError (Nat × List Char) := do
  let cs := dropBlanks cs
  let (n, rest) ← someDigits (takeDigits (cs.take width)).1 cs
  if low ≤ n ∧ n ≤ high then return (n, rest) else .error .outOfRange

/-- A year: four digits at most, or a sign and any number of digits, within 32 bits. -/
def readYear (cs : List Char) : Except ReadError (Int × List Char) := do
  let unlimited (cs : List Char) := someDigits (takeDigits cs).1 cs
  let (year, rest) ←
    match dropBlanks cs with
    | '-' :: cs => (unlimited cs).map fun r => (-(r.1 : Int), r.2)
    | '+' :: cs => (unlimited cs).map fun r => ((r.1 : Int), r.2)
    | cs => (someDigits (takeDigits (cs.take 4)).1 cs).map fun r => ((r.1 : Int), r.2)
  if Int32.minValue.toInt ≤ year ∧ year ≤ Int32.maxValue.toInt then return (year, rest)
  else .error .outOfRange

/-- One given character. -/
def readChar (c : Char) : List Char → Except ReadError (List Char)
  | [] => .error .tooShort
  | c' :: cs => if c' = c then .ok cs else .error .invalid

/-- The size of a text in bytes. -/
def byteCount (cs : List Char) : Nat := (String.ofList cs).utf8ByteSize

/-- A point and exactly three digits, or nothing; in nanoseconds. -/
def readFraction : List Char → Except ReadError (Nat × List Char)
  | '.' :: cs =>
    if byteCount cs < 3 then .error .tooShort
    else
      match (takeDigits (cs.take 3)).1 with
      | [a, b, c] => .ok (ofDigits [a, b, c] * 1000000, cs.drop 3)
      | _ => .error .invalid
  | cs => .ok (0, cs)

/-- The date whose fields were read.  Second 60 is the leap second of second 59. -/
def ofReadFields? (year : Int) (month day hour minute second nanosecond : Nat) :
    Option DateTime := do
  let day ← Day.ofFields? year month day
  let (second, extra) := if second = 60 then (59, nanosPerSecond) else (second, 0)
  let clock ← Clock.ofFields? hour minute second (nanosecond + extra)
  return ⟨day, clock⟩

/-- Reads a whole text as a date. -/
def DateTime.read (text : String) : Except ReadError DateTime := do
  let (year, cs) ← readYear text.toList
  let cs ← readChar '-' cs
  let (month, cs) ← readNumber 2 1 12 cs
  let cs ← readChar '-' cs
  let (day, cs) ← readNumber 2 1 31 cs
  let cs := dropBlanks cs
  let (hour, cs) ← readNumber 2 0 23 cs
  let cs ← readChar ':' cs
  let (minute, cs) ← readNumber 2 0 59 cs
  let cs ← readChar ':' cs
  let (second, cs) ← readNumber 2 0 60 cs
  let (nanosecond, cs) ← readFraction cs
  if cs ≠ [] then .error .tooLong
  else
    match ofReadFields? year month day hour minute second nanosecond with
    | some date => .ok date
    | none => .error .outOfRange

end Tabula.Calendar
