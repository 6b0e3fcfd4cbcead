/-
# Dates in the order of time

Days are counted from the beginning of year 0 (`Day.number`), seconds from midnight.  A date comes
before another if its day does, or on the same day its second, or in the same second its
nanosecond; a leap second is the part of second 59 beyond the first thousand million nanoseconds,
so it comes after the rest of its minute and before the next one.

The days of the calendar are counted in the order of their years, months and days
(`Day.number_lt_iff`), and the times of day in the order in which they are shown
(`Clock.before_truncated_iff`).
-/
import Mathlib.Order.Monotone.Basic
import Mathlib.Data.Int.SuccPred
import Tabula.Proofs.Calendar.Reading

namespace Tabula.Calendar

/-! ## 1. Counting days -/

/-- The number of days in a year. -/
def daysInYear (year : Int) : Nat := if isLeapYear year then 366 else 365

/-- The days from the beginning of year 0 to that of another year; negative for a year before it. -/
def daysBeforeYear (year : Int) : Int :=
  365 * year + ((year + 3) / 4 - (year + 99) / 100 + (year + 399) / 400)

/-- The days of a year before one of its months. -/
def daysBeforeMonth (year : Int) : Nat → Nat
  | 0 => 0
  | month + 1 => daysBeforeMonth year month + daysInMonth year month

theorem daysBeforeYear_succ (year : Int) :
    daysBeforeYear (year + 1) = daysBeforeYear year + daysInYear year := by
  simp only [daysBeforeYear, daysInYear, isLeapYear, Bool.and_eq_true, Bool.or_eq_true, beq_iff_eq,
    bne_iff_ne]
  split <;> omega

theorem daysBeforeYear_mono {a b : Int} (h : a ≤ b) : daysBeforeYear a ≤ daysBeforeYear b := by
  refine monotone_int_of_le_succ (fun year => ?_) h
  rw [daysBeforeYear_succ]
  omega

theorem daysBeforeMonth_mono (year : Int) : Monotone (daysBeforeMonth year) :=
  monotone_nat_of_le_succ fun _ => Nat.le_add_right ..

/-- The months of a year are the whole year. -/
theorem daysBeforeMonth_thirteen (year : Int) : daysBeforeMonth year 13 = daysInYear year := by
  simp only [daysBeforeMonth, daysInMonth, daysInYear]
  split <;> rfl

namespace Day

/-- Which day of its year it is. -/
def dayOfYear (d : Day) : Nat := daysBeforeMonth d.year d.month + d.day

/-- Which day it is, counted from the beginning of year 0. -/
def number (d : Day) : Int := daysBeforeYear d.year + d.dayOfYear

theorem dayOfYear_le (d : Day) : d.dayOfYear ≤ daysBeforeMonth d.year (d.month + 1) :=
  Nat.add_le_add_left d.exists_day.2 _

theorem dayOfYear_le_daysInYear (d : Day) : d.dayOfYear ≤ daysInYear d.year := by
  rw [← daysBeforeMonth_thirteen]
  exact d.dayOfYear_le.trans (daysBeforeMonth_mono d.year (Nat.succ_le_succ d.month_bounds.2))

variable {a b : Day}

theorem number_lt_of_year_lt (h : a.year < b.year) : a.number < b.number := by
  have hnext : daysBeforeYear (a.year + 1) ≤ daysBeforeYear b.year := daysBeforeYear_mono h
  have ha := a.dayOfYear_le_daysInYear
  have hb : 0 < b.dayOfYear := Nat.lt_of_lt_of_le b.exists_day.1 (Nat.le_add_left ..)
  rw [daysBeforeYear_succ] at hnext
  simp only [number]
  omega

theorem number_lt_of_month_lt (hyear : a.year = b.year) (h : a.month < b.month) :
    a.number < b.number := by
  have hnext : daysBeforeMonth b.year (a.month + 1) ≤ daysBeforeMonth b.year b.month :=
    daysBeforeMonth_mono b.year h
  have ha := a.dayOfYear_le
  have hb : daysBeforeMonth b.year b.month < b.dayOfYear :=
    Nat.lt_add_of_pos_right b.exists_day.1
  rw [hyear] at ha
  simp only [number, hyear]
  omega

/-- **Days are counted in the order of their years, months and days.** -/
theorem number_lt_iff :
    a.number < b.number ↔ a.year < b.year ∨ a.year = b.year ∧
      (a.month < b.month ∨ a.month = b.month ∧ a.day < b.day) := by
  rcases lt_trichotomy a.year b.year with hyear | hyear | hyear
  · simp only [number_lt_of_year_lt hyear, hyear, true_or]
  · rcases lt_trichotomy a.month b.month with hmonth | hmonth | hmonth
    · simp only [number_lt_of_month_lt hyear hmonth, hyear, hmonth, true_or, and_self, or_true]
    · simp [number, dayOfYear, hyear, hmonth]
    · have hlt := number_lt_of_month_lt hyear.symm hmonth
      simp only [hlt.not_gt, hyear, hmonth.not_gt, hmonth.ne', lt_irrefl, false_and, and_false,
        or_self]
  · have hlt := number_lt_of_year_lt hyear
    simp only [hlt.not_gt, hyear.not_gt, hyear.ne', false_and, or_self]

theorem ext_iff : a = b ↔ a.year = b.year ∧ a.month = b.month ∧ a.day = b.day := by
  cases a
  cases b
  simp

/-- The day after a leap day. -/
example : (⟨2000, 3, 1, by decide, by decide⟩ : Day).number =
    (⟨2000, 2, 29, by decide, by decide⟩ : Day).number + 1 := by decide

end Day

/-! ## 2. Moments -/

namespace Clock

/-- The seconds since midnight. -/
def secondOfDay (c : Clock) : Nat := (c.hour * 60 + c.minute) * 60 + c.second

/-- An earlier second, or the same one and an earlier part of it. -/
def Before (a b : Clock) : Prop :=
  a.secondOfDay < b.secondOfDay ∨ a.secondOfDay = b.secondOfDay ∧ a.nanosecond < b.nanosecond

instance (a b : Clock) : Decidable (a.Before b) := inferInstanceAs (Decidable (_ ∨ _))

/-- **Whole milliseconds pass in the order in which they are shown**, leap seconds included. -/
theorem before_truncated_iff {a b : Clock} :
    a.truncated.Before b.truncated ↔ a.hour < b.hour ∨ a.hour = b.hour ∧
      (a.minute < b.minute ∨ a.minute = b.minute ∧
        (a.shownSecond < b.shownSecond ∨ a.shownSecond = b.shownSecond ∧
          a.shownMillis < b.shownMillis)) := by
  have ha := a.shownMillis_lt
  have hb := b.shownMillis_lt
  have haMinute := a.minute_lt
  have hbMinute := b.minute_lt
  have haSecond := a.second_lt
  have hbSecond := b.second_lt
  have hsecondOfDay : ∀ c : Clock,
      c.truncated.secondOfDay = (c.hour * 60 + c.minute) * 60 + c.second := fun c => rfl
  simp only [Before, hsecondOfDay]
  rcases a.shown_cases with ⟨haSecond, haShown, haNanos⟩ | ⟨haShown, haNanos⟩ <;>
    rcases b.shown_cases with ⟨hbSecond, hbShown, hbNanos⟩ | ⟨hbShown, hbNanos⟩ <;>
    simp only [haShown, hbShown, haNanos, hbNanos, nanosPerMilli, nanosPerSecond, true_and] <;>
    omega

end Clock

/-- An earlier day, or the same day and an earlier time. -/
def DateTime.Before (a b : DateTime) : Prop :=
  a.day.number < b.day.number ∨ a.day = b.day ∧ a.clock.Before b.clock

instance (a b : DateTime) : Decidable (a.Before b) := inferInstanceAs (Decidable (_ ∨ _))

end Tabula.Calendar
