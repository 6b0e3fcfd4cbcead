/-
# Texts of dates in the order of time

An engine compares texts byte by byte.  From year 0 to year 9999 every field of a date has a fixed
width and stands before the less significant ones, so the texts of two dates compare as their
fields do, and as the dates do in time, once both are cut to milliseconds
(`bytes_text_lt_iff`).  Two dates have the same text exactly if they are the same then
(`text_eq_iff`), whatever their years.
-/
import Mathlib.Tactic.Tauto
import Tabula.Proofs.Calendar.Chronology

namespace Tabula.Calendar

open Tabula.Decimal

/-! ## 1. Bytes -/

/-- The bytes of a text. -/
def bytes (s : String) : List UInt8 := s.toByteArray.data.toList

theorem bytes_eq (s : String) : bytes s = s.toList.flatMap String.utf8EncodeChar := by
  rw [bytes, ← String.utf8Encode_toList, List.utf8Encode, List.toList_data_toByteArray]

/-- The byte of a digit. -/
def digitByte (d : Digit) : UInt8 := UInt8.ofNat (48 + d.val)

theorem utf8EncodeChar_char (d : Digit) : String.utf8EncodeChar d.char = [digitByte d] := by
  revert d; decide

theorem digitByte_lt_iff (d e : Digit) : digitByte d < digitByte e ↔ d.val < e.val := by
  revert d e; decide

theorem digitByte_injective : digitByte.Injective := by
  intro d e
  revert d e; decide

/-- The bytes of a number of a fixed width. -/
theorem flatMap_paddedText (width n : Nat) :
    (paddedText width n).toList.flatMap String.utf8EncodeChar =
      (padDigits width (digits n)).map digitByte := by
  rw [paddedText_toList]
  induction padDigits width (digits n) with
  | nil => rfl
  | cons d ds ih => simp [utf8EncodeChar_char, ih]

/-- Numbers of one width compare by their bytes as they do by their values. -/
theorem padded_append_lt_iff {width m n : Nat} (hwidth : 0 < width) (hm : m < 10 ^ width)
    (hn : n < 10 ^ width) (r s : List UInt8) :
    (padDigits width (digits m)).map digitByte ++ r <
        (padDigits width (digits n)).map digitByte ++ s ↔ m < n ∨ m = n ∧ r < s := by
  have hlength : (padDigits width (digits m)).length = (padDigits width (digits n)).length := by
    rw [length_padDigits hwidth hm, length_padDigits hwidth hn]
  simpa using append_lt_append_iff digitByte_lt_iff digitByte_injective hlength r s

/-! ## 2. Texts of dates -/

/-- The year is written with four digits and no sign. -/
def DateTime.IsFourDigit (d : DateTime) : Prop := 0 ≤ d.day.year ∧ d.day.year ≤ 9999

instance (d : DateTime) : Decidable d.IsFourDigit := inferInstanceAs (Decidable (_ ∧ _))

variable {d e : DateTime}

/-- The bytes of a date, field by field. -/
theorem bytes_text (hd : d.IsFourDigit) :
    bytes d.text = (padDigits 4 (digits d.day.year.toNat)).map digitByte ++
      45 :: ((padDigits 2 (digits d.day.month)).map digitByte ++
      45 :: ((padDigits 2 (digits d.day.day)).map digitByte ++
      32 :: ((padDigits 2 (digits d.clock.hour)).map digitByte ++
      58 :: ((padDigits 2 (digits d.clock.minute)).map digitByte ++
      58 :: ((padDigits 2 (digits d.clock.shownSecond)).map digitByte ++
      46 :: (padDigits 3 (digits d.clock.shownMillis)).map digitByte))))) := by
  have hmarks : String.utf8EncodeChar '-' = [45] ∧ String.utf8EncodeChar ' ' = [32] ∧
      String.utf8EncodeChar ':' = [58] ∧ String.utf8EncodeChar '.' = [46] := by decide
  obtain ⟨hdash, hspace, hcolon, hpoint⟩ := hmarks
  rw [bytes_eq, d.text_toList, yearText_toList_of_fourDigits hd]
  simp only [List.flatMap_append, List.flatMap_cons, flatMap_paddedText, hdash, hspace, hcolon,
    hpoint, List.cons_append, List.nil_append]

/-- Texts of dates compare as the fields do that they show. -/
theorem bytes_text_lt_iff_fields (hd : d.IsFourDigit) (he : e.IsFourDigit) :
    bytes d.text < bytes e.text ↔
      d.day.year < e.day.year ∨ d.day.year = e.day.year ∧ (d.day.month < e.day.month ∨
      d.day.month = e.day.month ∧ (d.day.day < e.day.day ∨ d.day.day = e.day.day ∧
      (d.clock.hour < e.clock.hour ∨ d.clock.hour = e.clock.hour ∧
      (d.clock.minute < e.clock.minute ∨ d.clock.minute = e.clock.minute ∧
      (d.clock.shownSecond < e.clock.shownSecond ∨ d.clock.shownSecond = e.clock.shownSecond ∧
        d.clock.shownMillis < e.clock.shownMillis))))) := by
  have hlt : ∀ x : DateTime, x.IsFourDigit → x.day.year.toNat < 10 ^ 4 ∧ x.day.month < 10 ^ 2 ∧
      x.day.day < 10 ^ 2 ∧ x.clock.hour < 10 ^ 2 ∧ x.clock.minute < 10 ^ 2 ∧
      x.clock.shownSecond < 10 ^ 2 := by
    intro x hx
    have hyear := hx.2
    have hmonth := x.day.month_bounds
    have hday := x.day.day_bounds
    have hhour := x.clock.hour_lt
    have hminute := x.clock.minute_lt
    have hsecond := x.clock.shownSecond_le
    omega
  obtain ⟨hdYear, hdMonth, hdDay, hdHour, hdMinute, hdSecond⟩ := hlt d hd
  obtain ⟨heYear, heMonth, heDay, heHour, heMinute, heSecond⟩ := hlt e he
  have hmillis : (padDigits 3 (digits d.clock.shownMillis)).map digitByte <
      (padDigits 3 (digits e.clock.shownMillis)).map digitByte ↔
        d.clock.shownMillis < e.clock.shownMillis := by
    simpa using padded_append_lt_iff (by decide) d.clock.shownMillis_lt e.clock.shownMillis_lt [] []
  have hmark : ∀ (b : UInt8) (r s : List UInt8), b :: r < b :: s ↔ r < s := by
    intro b r s
    simp
  rw [bytes_text hd, bytes_text he]
  -- A field decides unless it is the same in both, and a mark always is.
  rw [padded_append_lt_iff (by decide) hdYear heYear, hmark,
    padded_append_lt_iff (by decide) hdMonth heMonth, hmark,
    padded_append_lt_iff (by decide) hdDay heDay, hmark,
    padded_append_lt_iff (by decide) hdHour heHour, hmark,
    padded_append_lt_iff (by decide) hdMinute heMinute, hmark,
    padded_append_lt_iff (by decide) hdSecond heSecond, hmark, hmillis]
  have hdSign := hd.1
  have heSign := he.1
  have hyear : d.day.year.toNat < e.day.year.toNat ↔ d.day.year < e.day.year := by omega
  have hyearEq : d.day.year.toNat = e.day.year.toNat ↔ d.day.year = e.day.year := by omega
  rw [hyear, hyearEq]

/-- **Texts of dates compare byte by byte as the dates do in time**, cut to milliseconds. -/
theorem bytes_text_lt_iff (hd : d.IsFourDigit) (he : e.IsFourDigit) :
    bytes d.text < bytes e.text ↔ d.truncated.Before e.truncated := by
  rw [bytes_text_lt_iff_fields hd he]
  simp only [DateTime.Before, DateTime.truncated, Day.number_lt_iff, Day.ext_iff,
    Clock.before_truncated_iff]
  tauto

/-- The theorem ends with year 9999: a year beyond it has a sign, which comes before all digits. -/
example : bytes (Day.start ⟨10000, 1, 1, by decide, by decide⟩).text <
    bytes (Day.start ⟨0, 1, 1, by decide, by decide⟩).text := by decide +kernel

/-- Dates have the same text exactly if they are the same, cut to milliseconds. -/
theorem text_eq_iff : d.text = e.text ↔ d.truncated = e.truncated := by
  constructor
  · intro h
    have hread := read_text d
    rw [h, read_text] at hread
    exact (Except.ok.inj hread).symm
  · intro h
    rw [← d.text_truncated, h, e.text_truncated]

end Tabula.Calendar
