/-
# Numerals are read as they were written

A numeral that stands in front of a text which does not continue it is taken off whole
(`read?_text`): sign, whole part, fraction and exponent each end where the next one begins.
The integers among the numerals give their integer back (`toInt?_ofInt`).
-/
import Tabula.Decimal.Numeral

namespace Tabula.Decimal

/-! ## 1. Digits -/

/-- A text that does not begin with a digit. -/
def NoDigit (cs : List Char) : Prop := ∀ c ∈ cs.head?, digit? c = none

@[simp] theorem noDigit_nil : NoDigit [] := by simp [NoDigit]

@[simp] theorem noDigit_cons {c : Char} {cs : List Char} :
    NoDigit (c :: cs) ↔ digit? c = none := by
  simp [NoDigit]

theorem takeDigits_of_noDigit {cs : List Char} (h : NoDigit cs) : takeDigits cs = ([], cs) := by
  cases cs with
  | nil => rfl
  | cons c cs => simp [takeDigits, noDigit_cons.1 h]

theorem takeDigits_append (ds : List Digit) {rest : List Char} (h : NoDigit rest) :
    takeDigits (ds.map Digit.char ++ rest) = (ds, rest) := by
  induction ds with
  | nil => exact takeDigits_of_noDigit h
  | cons d ds ih => simp [takeDigits, digit?_char, ih]

/-- The first digit of a number other than zero is not zero. -/
theorem exists_digits_eq_cons {n : Nat} (h : 0 < n) :
    ∃ d ds, digits n = d :: ds ∧ d.val ≠ 0 := by
  induction n using Nat.strongRecOn with
  | _ n ih =>
    unfold digits
    by_cases hn : n < 10
    · exact ⟨⟨n, hn⟩, [], by simp [hn], by simp only; omega⟩
    · obtain ⟨d, ds, hds, hd⟩ := ih (n / 10) (by omega) (by omega)
      exact ⟨d, ds ++ [⟨n % 10, by omega⟩], by simp [hn, hds], hd⟩

theorem digits_ne_nil (n : Nat) : digits n ≠ [] :=
  List.ne_nil_of_length_pos (digits_length_pos n)

/-- A digit is none of the marks that a numeral may hold besides. -/
theorem Digit.char_ne (d : Digit) :
    d.char ≠ '-' ∧ d.char ≠ '+' ∧ d.char ≠ '.' ∧ d.char ≠ 'e' ∧ d.char ≠ 'E' := by
  revert d; decide

@[simp] theorem natText_toList (n : Nat) : (natText n).toList = (digits n).map Digit.char := by
  simp [natText, digitsText]

namespace Numeral

/-! ## 2. The parts of a numeral -/

/-- A text that does not continue a numeral before it. -/
def Ends (cs : List Char) : Prop :=
  ∀ c ∈ cs.head?, digit? c = none ∧ c ≠ '.' ∧ c ≠ 'e' ∧ c ≠ 'E'

@[simp] theorem ends_nil : Ends [] := by simp [Ends]

theorem Ends.noDigit {cs : List Char} (h : Ends cs) : NoDigit cs := fun c hc => (h c hc).1

/-- The fraction as it stands in a numeral. -/
def fractionChars (n : Numeral) : List Char :=
  if n.fraction = [] then [] else '.' :: n.fraction.map Digit.char

/-- The exponent as it stands in a numeral. -/
def exponentChars (n : Numeral) : List Char :=
  match n.exponent with
  | some e => (exponentText e).toList
  | none => []

theorem text_toList (n : Numeral) :
    n.text.toList = (if n.negative then ['-'] else []) ++
      ((digits n.whole).map Digit.char ++ (n.fractionChars ++ n.exponentChars)) := by
  unfold text fractionChars exponentChars
  cases n.negative <;> cases n.exponent <;> by_cases hf : n.fraction = [] <;>
    simp [hf, digitsText]

theorem readWhole?_append (n : Nat) {rest : List Char} (h : NoDigit rest) :
    readWhole? ((digits n).map Digit.char ++ rest) = some (n, rest) := by
  have hof := ofDigits_digits n
  simp only [readWhole?, takeDigits_append _ h]
  rcases Nat.eq_zero_or_pos n with rfl | hn
  · simp [digits, ofDigits]
  · obtain ⟨d, ds, hds, hd⟩ := exists_digits_eq_cons hn
    rw [hds] at hof
    simp only [hds, hd, false_and, ite_false, hof]

theorem readFraction?_append {n : Numeral} {rest : List Char} (h : NoDigit rest)
    (hp : ∀ c ∈ rest.head?, c ≠ '.') :
    readFraction? (n.fractionChars ++ rest) = some (n.fraction, rest) := by
  unfold fractionChars
  split
  case isTrue hf =>
    cases rest with
    | nil => simp [readFraction?, hf]
    | cons c rest =>
      have hc : c ≠ '.' := hp c (by simp)
      simp [readFraction?, hf, hc]
  case isFalse hf =>
    obtain ⟨d, ds, hds⟩ := List.exists_cons_of_ne_nil hf
    simp only [List.cons_append, readFraction?, takeDigits_append _ h, hds]

theorem readPower?_append (e : Int) {rest : List Char} (h : NoDigit rest) :
    readPower? ((if e < 0 then '-' else '+') :: ((digits e.natAbs).map Digit.char ++ rest)) =
      some (e, rest) := by
  have hof := ofDigits_digits e.natAbs
  obtain ⟨d, ds, hds⟩ := List.exists_cons_of_ne_nil (digits_ne_nil e.natAbs)
  rw [hds] at hof
  by_cases he : e < 0
  · simp only [readPower?, he, ite_true, takeDigits_append _ h, hds, hof]
    simp only [Option.some.injEq, Prod.mk.injEq, and_true]
    omega
  · simp only [readPower?, he, ite_false, takeDigits_append _ h, hds, hof]
    simp only [Bool.false_eq_true, ite_false, Option.some.injEq, Prod.mk.injEq, and_true]
    omega

theorem exponentText_toList (e : Int) :
    (exponentText e).toList =
      'e' :: (if e < 0 then '-' else '+') :: (digits e.natAbs).map Digit.char := by
  unfold exponentText
  split <;> simp

theorem readExponent?_append {n : Numeral} {rest : List Char} (h : Ends rest) :
    readExponent? (n.exponentChars ++ rest) = some (n.exponent, rest) := by
  unfold exponentChars
  cases n.exponent with
  | some e =>
    simp [exponentText_toList, readExponent?, readPower?_append e h.noDigit]
  | none =>
    cases rest with
    | nil => simp [readExponent?]
    | cons c rest =>
      obtain ⟨-, -, he, hE⟩ := h c (by simp)
      simp [readExponent?, he, hE]

/-- Neither the exponent nor what follows it begins with a digit or a point. -/
theorem head?_exponentChars_append {n : Numeral} {rest : List Char} (h : Ends rest) :
    ∀ c ∈ (n.exponentChars ++ rest).head?, digit? c = none ∧ c ≠ '.' := by
  unfold exponentChars
  cases n.exponent with
  | some e =>
    simp only [exponentText_toList, List.cons_append, List.head?_cons, Option.mem_def,
      Option.some.injEq]
    rintro c rfl
    decide
  | none => exact fun c hc => ⟨(h c hc).1, (h c hc).2.1⟩

theorem noDigit_fractionChars_append {n : Numeral} {rest : List Char} (h : Ends rest) :
    NoDigit (n.fractionChars ++ (n.exponentChars ++ rest)) := by
  unfold fractionChars
  split
  · exact fun c hc => (head?_exponentChars_append h c hc).1
  · simp [digit?]

/-! ## 3. Whole numerals -/

/-- **A numeral is taken off whole.** -/
theorem read?_text (n : Numeral) {rest : List Char} (h : Ends rest) :
    read? (n.text.toList ++ rest) = some (n, rest) := by
  have hparts : readWhole? ((digits n.whole).map Digit.char ++
      (n.fractionChars ++ (n.exponentChars ++ rest))) =
        some (n.whole, n.fractionChars ++ (n.exponentChars ++ rest)) :=
    readWhole?_append n.whole (noDigit_fractionChars_append h)
  have hfraction : readFraction? (n.fractionChars ++ (n.exponentChars ++ rest)) =
      some (n.fraction, n.exponentChars ++ rest) :=
    readFraction?_append (fun c hc => (head?_exponentChars_append h c hc).1)
      fun c hc => (head?_exponentChars_append h c hc).2
  have hexponent := readExponent?_append (n := n) h
  obtain ⟨d, ds, hds⟩ := List.exists_cons_of_ne_nil (digits_ne_nil n.whole)
  rw [text_toList]
  cases hneg : n.negative with
  | true =>
    simp only [read?, ite_true, List.append_assoc, List.cons_append, List.nil_append, hparts,
      hfraction, hexponent, Option.bind_eq_bind, Option.bind_some, Option.pure_def]
    rw [← hneg]
  | false =>
    rw [hds, List.map_cons, List.cons_append] at hparts
    simp only [Bool.false_eq_true, ite_false, List.nil_append, List.append_assoc, hds,
      List.map_cons, List.cons_append, read?]
    split
    case h_1 heq =>
      -- a numeral without a sign begins with a digit, which is not a sign
      exact absurd (List.cons.inj heq).1 (Digit.char_ne d).1
    case h_2 =>
      simp only [hparts, hfraction, hexponent, Option.bind_eq_bind, Option.bind_some,
        Option.pure_def]
      rw [← hneg]

/-- A numeral begins with a sign or a digit. -/
theorem exists_text_eq_cons (n : Numeral) :
    ∃ c cs, n.text.toList = c :: cs ∧ (c = '-' ∨ (digit? c).isSome) := by
  rw [text_toList]
  obtain ⟨d, ds, hds⟩ := List.exists_cons_of_ne_nil (digits_ne_nil n.whole)
  cases n.negative with
  | true => exact ⟨'-', _, rfl, .inl rfl⟩
  | false => exact ⟨d.char, _, by simp [hds]; rfl, .inr (by simp [digit?_char])⟩

/-! ## 4. Integers -/

theorem toInt?_ofInt (i : Int) : (ofInt i).toInt? = some i := by
  have hzero : ¬(i < 0 ∧ i = 0) := by omega
  simp only [toInt?, ofInt, decide_eq_true_eq, Int.natAbs_eq_zero, true_and, hzero,
    not_false_eq_true, ite_true, Option.some.injEq]
  split <;> omega

end Numeral
end Tabula.Decimal
