/-
# Calendar days and times of day

Days of the proleptic Gregorian calendar and times of day down to the nanosecond.  Both types hold
valid values only: `Day.ofFields?` and `Clock.ofFields?` refuse the others.  A leap second is
second 59 with a nanosecond count of one second or more.
-/
namespace Tabula.Calendar

/-- Every fourth year, but of the full centuries only every fourth. -/
def isLeapYear (year : Int) : Bool :=
  year % 4 == 0 && (year % 100 != 0 || year % 400 == 0)

/-- The number of days in a month; none for what is not a month. -/
def daysInMonth (year : Int) (month : Nat) : Nat :=
  match month with
  | 1 | 3 | 5 | 7 | 8 | 10 | 12 => 31
  | 4 | 6 | 9 | 11 => 30
  | 2 => if isLeapYear year then 29 else 28
  | _ => 0

/-- The first year that the calendar covers. -/
def firstYear : Int := -262143

/-- The last year that the calendar covers. -/
def lastYear : Int := 262142

/-- A day of a covered year. -/
structure Day where
  year : Int
  month : Nat
  day : Nat
  covered : firstYear ≤ year ∧ year ≤ lastYear
  exists_day : 1 ≤ day ∧ day ≤ daysInMonth year month
deriving DecidableEq, Repr

/-- The day with these fields, if there is one. -/
def Day.ofFields? (year : Int) (month day : Nat) : Option Day :=
  if covered : firstYear ≤ year ∧ year ≤ lastYear then
    if exists_day : 1 ≤ day ∧ day ≤ daysInMonth year month then
      some ⟨year, month, day, covered, exists_day⟩
    else none
  else none

/-- The nanoseconds in a second. -/
def nanosPerSecond : Nat := 1000000000

/-- A time of day. -/
structure Clock where
  hour : Nat
  minute : Nat
  second : Nat
  nanosecond : Nat
  hour_lt : hour < 24
  minute_lt : minute < 60
  second_lt : second < 60
  nanosecond_lt : nanosecond < nanosPerSecond ∨ second = 59 ∧ nanosecond < 2 * nanosPerSecond
deriving DecidableEq, Repr

/-- The time of day with these fields, if there is one. -/
def Clock.ofFields? (hour minute second nanosecond : Nat) : Option Clock :=
  if h : hour < 24 ∧ minute < 60 ∧ second < 60 ∧
      (nanosecond < nanosPerSecond ∨ second = 59 ∧ nanosecond < 2 * nanosPerSecond) then
    some ⟨hour, minute, second, nanosecond, h.1, h.2.1, h.2.2.1, h.2.2.2⟩
  else none

/-- The first moment of a day. -/
def Clock.midnight : Clock := ⟨0, 0, 0, 0, by decide, by decide, by decide, by decide⟩

/-- A day and a time of that day. -/
structure DateTime where
  day : Day
  clock : Clock
deriving DecidableEq, Repr

/-- The beginning of a day. -/
def Day.start (d : Day) : DateTime := ⟨d, .midnight⟩

end Tabula.Calendar
