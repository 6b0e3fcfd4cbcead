/-
# Dates are read back as they were written

The text of a date is read as that date, cut to milliseconds (`read_text`): each field ends where
the mark after it begins, a year outside of four digits by its sign, and second 60 gives the leap
second back.  What was read has whole milliseconds (`millis_of_read`), so it is read again from its
own text, however it was written before.
-/
import Tabula.Calendar.Text
import Tabula.Proofs.Decimal.Padding
import Tabula.Proofs.Fallible

namespace Tabula.Calendar

open Tabula.Decimal Tabula.Text

/-! ## 1. Whole milliseconds -/

/-- The nanoseconds in a millisecond. -/
def nanosPerMilli : Nat := 1000000

namespace Clock

/-- The time lies in a leap second. -/
def IsLeap (c : Clock) : Prop := nanosPerSecond ≤ c.nanosecond

/-- The time without the nanoseconds beyond its last whole millisecond. -/
def truncated (c : Clock) : Clock :=
  { c with
    nanosecond := c.nanosecond - c.nanosecond % nanosPerMilli
    nanosecond_lt := c.nanosecond_lt.imp (Nat.lt_of_le_of_lt (Nat.sub_le ..))
      fun h => ⟨h.1, Nat.lt_of_le_of_lt (Nat.sub_le ..) h.2⟩ }

theorem truncated_eq_self {c : Clock} (h : c.nanosecond % nanosPerMilli = 0) :
    c.truncated = c := by
  simp [truncated, h]

/-- A leap second stays one. -/
theorem isLeap_truncated (c : Clock) : c.truncated.IsLeap ↔ c.IsLeap := by
  simp only [IsLeap, truncated, nanosPerSecond, nanosPerMilli]
  omega

end Clock

/-- The date without the nanoseconds beyond its last whole millisecond. -/
def DateTime.truncated (d : DateTime) : DateTime := ⟨d.day, d.clock.truncated⟩

/-! ## 2. Numbers -/

theorem isBlank_char (d : Digit) : isBlank d.char = false := by
  revert d; decide

/-- Digits are not skipped. -/
theorem dropBlanks_digits {ds : List Digit} (h : ds ≠ []) (rest : List Char) :
    dropBlanks (ds.map Digit.char ++ rest) = ds.map Digit.char ++ rest := by
  obtain ⟨d, ds, rfl⟩ := List.exists_cons_of_ne_nil h
  simp [dropBlanks, isBlank_char]

theorem someDigits_append {ds : List Digit} (h : ds ≠ []) (rest : List Char) :
    someDigits ds (ds.map Digit.char ++ rest) = .ok (ofDigits ds, rest) := by
  simp [someDigits, h]

theorem takeDigits_take (ds : List Digit) (rest : List Char) :
    takeDigits ((ds.map Digit.char ++ rest).take ds.length) = (ds, []) := by
  have htake : (ds.map Digit.char ++ rest).take ds.length = ds.map Digit.char ++ [] := by
    simp
  rw [htake, takeDigits_append ds noDigit_nil]

section Padded

variable {width n : Nat} (hwidth : 0 < width) (hn : n < 10 ^ width)
include hwidth hn

theorem padDigits_ne_nil : padDigits width (digits n) ≠ [] := by
  rw [← List.length_pos_iff, length_padDigits hwidth hn]
  exact hwidth

theorem dropBlanks_padded (rest : List Char) :
    dropBlanks ((paddedText width n).toList ++ rest) = (paddedText width n).toList ++ rest := by
  rw [paddedText_toList]
  exact dropBlanks_digits (padDigits_ne_nil hwidth hn) rest

/-- As many digits as the width, whatever follows. -/
theorem someDigits_padded (rest : List Char) :
    someDigits (takeDigits (((paddedText width n).toList ++ rest).take width)).1
      ((paddedText width n).toList ++ rest) = .ok (n, rest) := by
  have htake := takeDigits_take (padDigits width (digits n)) rest
  rw [length_padDigits hwidth hn] at htake
  rw [paddedText_toList, htake, someDigits_append (padDigits_ne_nil hwidth hn),
    ofDigits_padDigits]

/-- **A number of a fixed width is taken off whole.** -/
theorem readNumber_padded {low high : Nat} (hlow : low ≤ n) (hhigh : n ≤ high)
    (rest : List Char) :
    readNumber width low high ((paddedText width n).toList ++ rest) = .ok (n, rest) := by
  simp only [readNumber, dropBlanks_padded hwidth hn, someDigits_padded hwidth hn, ok_bind]
  simp [hlow, hhigh]

end Padded

/-! ## 3. Years -/

theorem yearText_toList_of_fourDigits {year : Int} (h : 0 ≤ year ∧ year ≤ 9999) :
    (yearText year).toList = (paddedText 4 year.toNat).toList := by
  rw [yearText, if_pos h]

theorem yearText_toList_of_not_fourDigits {year : Int} (h : ¬(0 ≤ year ∧ year ≤ 9999)) :
    (yearText year).toList =
      (if year < 0 then '-' else '+') :: (paddedText 4 year.natAbs).toList := by
  rw [yearText, if_neg h]
  split <;> simp

/-- Digits of any number, up to what is no digit. -/
theorem someDigits_unlimited (width n : Nat) {rest : List Char} (hrest : NoDigit rest) :
    someDigits (takeDigits ((paddedText width n).toList ++ rest)).1
      ((paddedText width n).toList ++ rest) = .ok (n, rest) := by
  have hne : padDigits width (digits n) ≠ [] := by simp [padDigits, digits_ne_nil]
  rw [paddedText_toList, takeDigits_append _ hrest, someDigits_append hne, ofDigits_padDigits]

/-- **A covered year is read as itself**, with a sign or without. -/
theorem readYear_yearText {year : Int} (hcovered : firstYear ≤ year ∧ year ≤ lastYear)
    {rest : List Char} (hrest : NoDigit rest) :
    readYear ((yearText year).toList ++ rest) = .ok (year, rest) := by
  have hrange : Int32.minValue.toInt ≤ year ∧ year ≤ Int32.maxValue.toInt := by
    have hmin : Int32.minValue.toInt = -2147483648 := by decide
    have hmax : Int32.maxValue.toInt = 2147483647 := by decide
    simp only [firstYear, lastYear] at hcovered
    omega
  by_cases hfour : 0 ≤ year ∧ year ≤ 9999
  case pos =>
    have hn : year.toNat < 10 ^ 4 := by omega
    have hread := someDigits_padded (by decide) hn rest
    obtain ⟨d, ds, hds⟩ := List.exists_cons_of_ne_nil (padDigits_ne_nil (by decide) hn)
    rw [yearText_toList_of_fourDigits hfour]
    simp only [readYear, dropBlanks_padded (by decide) hn]
    split
    case h_3 =>
      have hyear : (year.toNat : Int) = year := Int.toNat_of_nonneg hfour.1
      rw [hread, map_ok, ok_bind, hyear, if_pos hrange, pure_eq_ok]
    -- The first character is a digit, which is no sign.
    all_goals
      rename_i heq
      rw [paddedText_toList, hds] at heq
      have hsign := (List.cons.inj heq).1
    · exact absurd hsign d.char_ne.1
    · exact absurd hsign d.char_ne.2.1
  case neg =>
    have hread := someDigits_unlimited 4 year.natAbs hrest
    rw [yearText_toList_of_not_fourDigits hfour]
    by_cases hneg : year < 0
    · have hblank : ∀ cs, dropBlanks ('-' :: cs) = '-' :: cs := fun cs => rfl
      have hyear : -(year.natAbs : Int) = year := by omega
      simp only [readYear, hneg, ite_true, List.cons_append, hblank, hread, map_ok, ok_bind, hyear]
      rw [if_pos hrange, pure_eq_ok]
    · have hblank : ∀ cs, dropBlanks ('+' :: cs) = '+' :: cs := fun cs => rfl
      have hyear : (year.natAbs : Int) = year := by omega
      simp only [readYear, hneg, ite_false, List.cons_append, hblank, hread, map_ok, ok_bind, hyear]
      rw [if_pos hrange, pure_eq_ok]

/-! ## 4. The other fields -/

/-- A mark is read where it stands. -/
theorem readChar_cons (c : Char) (cs : List Char) : readChar c (c :: cs) = .ok cs := by
  simp [readChar]

theorem length_le_byteCount (cs : List Char) : cs.length ≤ byteCount cs := by
  unfold byteCount
  induction cs with
  | nil => simp
  | cons c cs ih =>
    have hc : 0 < c.utf8Size := c.utf8Size_pos
    rw [List.length_cons, String.ofList_cons, String.utf8ByteSize_append,
      String.utf8ByteSize_singleton]
    omega

/-- Three digits after a point are read as milliseconds. -/
theorem readFraction_padded {millis : Nat} (h : millis < 10 ^ 3) :
    readFraction ('.' :: (paddedText 3 millis).toList) = .ok (millis * nanosPerMilli, []) := by
  have hlength := length_padDigits (by decide) h
  obtain ⟨a, b, c, hdigits⟩ := List.length_eq_three.mp hlength
  have hvalue := ofDigits_padDigits 3 millis
  have hbytes := length_le_byteCount ([a, b, c].map Digit.char)
  have htake := takeDigits_take [a, b, c] []
  rw [List.append_nil] at htake
  rw [paddedText_toList, hdigits] at *
  simp only [readFraction, List.length_map, List.length_cons, List.length_nil] at *
  rw [if_neg (by omega), htake]
  simp [hvalue, nanosPerMilli]

theorem Day.ofFields?_self (d : Day) : Day.ofFields? d.year d.month d.day = some d := by
  rw [Day.ofFields?, dif_pos d.covered, dif_pos d.exists_day]

theorem Clock.ofFields?_self (c : Clock) :
    Clock.ofFields? c.hour c.minute c.second c.nanosecond = some c := by
  rw [Clock.ofFields?, dif_pos ⟨c.hour_lt, c.minute_lt, c.second_lt, c.nanosecond_lt⟩]

namespace Clock

/-- The second that is written: 60 in a leap second. -/
def shownSecond (c : Clock) : Nat := c.second + c.nanosecond / nanosPerSecond

/-- The milliseconds that are written. -/
def shownMillis (c : Clock) : Nat := c.nanosecond % nanosPerSecond / nanosPerMilli

theorem shownSecond_le (c : Clock) : c.shownSecond ≤ 60 := by
  have hsecond := c.second_lt
  have hnanos := c.nanosecond_lt
  simp only [shownSecond, nanosPerSecond] at *
  omega

theorem shownMillis_lt (c : Clock) : c.shownMillis < 10 ^ 3 := by
  simp only [shownMillis, nanosPerSecond, nanosPerMilli]
  omega

/-- In a leap second the shown second is 60, and at any other time the second itself. -/
theorem shown_cases (c : Clock) :
    (c.second = 59 ∧ c.shownSecond = 60 ∧
      c.truncated.nanosecond = c.shownMillis * nanosPerMilli + nanosPerSecond) ∨
    (c.shownSecond = c.second ∧ c.truncated.nanosecond = c.shownMillis * nanosPerMilli) := by
  have hnanos := c.nanosecond_lt
  simp only [shownSecond, shownMillis, truncated, nanosPerSecond, nanosPerMilli] at *
  omega

theorem shownSecond_truncated (c : Clock) : c.truncated.shownSecond = c.shownSecond := by
  simp only [shownSecond, truncated, nanosPerSecond, nanosPerMilli]
  omega

theorem shownMillis_truncated (c : Clock) : c.truncated.shownMillis = c.shownMillis := by
  simp only [shownMillis, truncated, nanosPerSecond, nanosPerMilli]
  omega

end Clock

/-- The fields of a date that is written give the date, cut to milliseconds. -/
theorem ofReadFields?_shown (d : DateTime) :
    ofReadFields? d.day.year d.day.month d.day.day d.clock.hour d.clock.minute d.clock.shownSecond
      (d.clock.shownMillis * nanosPerMilli) = some d.truncated := by
  have hvalid : Clock.ofFields? d.clock.hour d.clock.minute d.clock.second
      d.clock.truncated.nanosecond = some d.clock.truncated := d.clock.truncated.ofFields?_self
  rcases d.clock.shown_cases with ⟨hsecond, hshown, hnanos⟩ | ⟨hshown, hnanos⟩
  case inl =>
    rw [hsecond, hnanos] at hvalid
    simp [ofReadFields?, Day.ofFields?_self, hshown, hvalid, DateTime.truncated]
  case inr =>
    have hne : d.clock.second ≠ 60 := Nat.ne_of_lt d.clock.second_lt
    rw [hnanos] at hvalid
    simp [ofReadFields?, Day.ofFields?_self, hshown, hne, hvalid, DateTime.truncated]

/-! ## 5. Dates -/

theorem Day.month_bounds (d : Day) : 1 ≤ d.month ∧ d.month ≤ 12 := by
  have hday := d.exists_day
  have hpos : 0 < daysInMonth d.year d.month := Nat.lt_of_lt_of_le hday.1 hday.2
  unfold daysInMonth at hpos
  split at hpos <;> omega

theorem Day.day_bounds (d : Day) : 1 ≤ d.day ∧ d.day ≤ 31 := by
  have hday := d.exists_day
  have hmonth : daysInMonth d.year d.month ≤ 31 := by
    have hfebruary : (if isLeapYear d.year then 29 else 28) ≤ 31 := by split <;> decide
    unfold daysInMonth
    split <;> first | exact hfebruary | decide
  omega

/-- The fields of a date, each with the mark before it. -/
theorem DateTime.text_toList (d : DateTime) :
    d.text.toList = (yearText d.day.year).toList ++ '-' :: ((paddedText 2 d.day.month).toList ++
      '-' :: ((paddedText 2 d.day.day).toList ++ ' ' :: ((paddedText 2 d.clock.hour).toList ++
        ':' :: ((paddedText 2 d.clock.minute).toList ++ ':' ::
          ((paddedText 2 d.clock.shownSecond).toList ++
            '.' :: (paddedText 3 d.clock.shownMillis).toList))))) := by
  simp [text, Day.text, Clock.text, Clock.shownSecond, Clock.shownMillis, nanosPerMilli]

/-- What is cut off is not written either. -/
theorem DateTime.text_truncated (d : DateTime) : d.truncated.text = d.text := by
  rw [← String.toList_inj, text_toList, text_toList]
  simp only [truncated, Clock.shownSecond_truncated, Clock.shownMillis_truncated]
  rfl

/-- **A date is read from its own text**, cut to milliseconds. -/
theorem read_text (d : DateTime) : DateTime.read d.text = .ok d.truncated := by
  have hmonth := d.day.month_bounds
  have hday := d.day.day_bounds
  have hsecond := d.clock.shownSecond_le
  have hhour : d.clock.hour < 10 ^ 2 := Nat.lt_trans d.clock.hour_lt (by decide)
  have hminute : d.clock.minute < 10 ^ 2 := Nat.lt_trans d.clock.minute_lt (by decide)
  have hdash : ∀ cs, NoDigit ('-' :: cs) := fun cs => noDigit_cons.mpr rfl
  have hspace : ∀ cs, dropBlanks (' ' :: cs) = dropBlanks cs := fun cs => rfl
  have hskip := dropBlanks_padded (by decide) hhour
  -- Each field ends where its width ends, and the year where the first dash stands.
  have hreadMonth := readNumber_padded (show 0 < 2 by decide) (by omega) hmonth.1 hmonth.2
  have hreadDay := readNumber_padded (show 0 < 2 by decide) (by omega) hday.1 hday.2
  have hreadHour := readNumber_padded (by decide) hhour (Nat.zero_le _)
    (Nat.le_of_lt_succ d.clock.hour_lt)
  have hreadMinute := readNumber_padded (by decide) hminute (Nat.zero_le _)
    (Nat.le_of_lt_succ d.clock.minute_lt)
  have hreadSecond := readNumber_padded (show 0 < 2 by decide) (by omega) (Nat.zero_le _) hsecond
  rw [DateTime.read, d.text_toList, readYear_yearText d.day.covered (hdash _), ok_bind]
  simp only [readChar_cons, ok_bind, hreadMonth, hreadDay, hspace, hskip,
    hreadHour, hreadMinute, hreadSecond, readFraction_padded d.clock.shownMillis_lt,
    ofReadFields?_shown]
  rfl

theorem millis_of_readFraction {cs rest : List Char} {nanosecond : Nat}
    (h : readFraction cs = .ok (nanosecond, rest)) : nanosecond % nanosPerMilli = 0 := by
  unfold readFraction at h
  split at h
  case h_1 =>
    split at h
    · cases h
    · split at h
      · cases h
        exact Nat.mul_mod_left ..
      · cases h
  case h_2 =>
    cases h
    rfl

theorem Clock.nanosecond_of_ofFields? {hour minute second nanosecond : Nat} {c : Clock}
    (h : Clock.ofFields? hour minute second nanosecond = some c) : c.nanosecond = nanosecond := by
  unfold Clock.ofFields? at h
  split at h
  case isTrue => rw [← Option.some.inj h]
  case isFalse => cases h

theorem nanosecond_of_ofReadFields? {year : Int} {month day hour minute second nanosecond : Nat}
    {d : DateTime}
    (h : ofReadFields? year month day hour minute second nanosecond = some d) :
    d.clock.nanosecond = nanosecond ∨ d.clock.nanosecond = nanosecond + nanosPerSecond := by
  obtain ⟨day, -, h⟩ := Option.bind_eq_some_iff.mp h
  by_cases hleap : second = 60
  · rw [if_pos hleap] at h
    obtain ⟨clock, hclock, h⟩ := Option.bind_eq_some_iff.mp h
    cases h
    exact .inr (Clock.nanosecond_of_ofFields? hclock)
  · rw [if_neg hleap] at h
    obtain ⟨clock, hclock, h⟩ := Option.bind_eq_some_iff.mp h
    cases h
    exact .inl (Clock.nanosecond_of_ofFields? hclock)

/-- What was read has whole milliseconds. -/
theorem millis_of_read {text : String} {d : DateTime} (h : DateTime.read text = .ok d) :
    d.clock.nanosecond % nanosPerMilli = 0 := by
  obtain ⟨⟨year, cs⟩, -, h⟩ := bind_eq_ok.mp h
  obtain ⟨cs, -, h⟩ := bind_eq_ok.mp h
  obtain ⟨⟨month, cs⟩, -, h⟩ := bind_eq_ok.mp h
  obtain ⟨cs, -, h⟩ := bind_eq_ok.mp h
  obtain ⟨⟨day, cs⟩, -, h⟩ := bind_eq_ok.mp h
  obtain ⟨⟨hour, cs⟩, -, h⟩ := bind_eq_ok.mp h
  obtain ⟨cs, -, h⟩ := bind_eq_ok.mp h
  obtain ⟨⟨minute, cs⟩, -, h⟩ := bind_eq_ok.mp h
  obtain ⟨cs, -, h⟩ := bind_eq_ok.mp h
  obtain ⟨⟨second, cs⟩, -, h⟩ := bind_eq_ok.mp h
  obtain ⟨⟨nanosecond, cs⟩, hfraction, h⟩ := bind_eq_ok.mp h
  have hmillis := millis_of_readFraction hfraction
  simp only at h
  split at h
  · cases h
  · split at h
    case h_1 date hdate =>
      cases h
      -- A leap second adds a whole second.
      rcases nanosecond_of_ofReadFields? hdate with hnanos | hnanos
      · rw [hnanos, hmillis]
      · rw [hnanos, Nat.add_mod, hmillis]
        rfl
    case h_2 => cases h

/-- **Dates are read back as they were written.**  A date is read from its own text, cut to
milliseconds and in a leap second if it was in one; and a date that was read from any text is read
again from its own. -/
theorem readsBack_text :
    (∀ d : DateTime, DateTime.read d.text = .ok d.truncated ∧
      (d.truncated.clock.IsLeap ↔ d.clock.IsLeap)) ∧
    ∀ text d, DateTime.read text = .ok d → DateTime.read d.text = .ok d := by
  refine ⟨fun d => ⟨read_text d, d.clock.isLeap_truncated⟩, ?_⟩
  intro text d h
  have htruncated : d.truncated = d := by
    rw [DateTime.truncated, Clock.truncated_eq_self (millis_of_read h)]
  rw [read_text, htruncated]

/-- The last leap second so far, at its half. -/
def leapSecond : DateTime :=
  ⟨⟨2016, 12, 31, by decide, by decide⟩,
    ⟨23, 59, 59, 1500000000, by decide, by decide, by decide, by decide⟩⟩

/-- A leap second that was read from a text with signs, blanks and missing zeros. -/
theorem readsBack_leapSecond :
    DateTime.read "\t+2016- 12-31\n23:59:60.500" = .ok leapSecond ∧
      DateTime.read leapSecond.text = .ok leapSecond := by
  have hread : DateTime.read "\t+2016- 12-31\n23:59:60.500" = .ok leapSecond := by decide +kernel
  exact ⟨hread, readsBack_text.2 _ _ hread⟩

end Tabula.Calendar
