/-
# Decimal digits

Digits of natural numbers, most significant first, and the texts made of them.
`ofDigits_digits` says that the digits of a number stand for that number, and
`digits_length_pos` that there is always at least one.
-/
namespace Tabula.Decimal

/-- A decimal digit. -/
abbrev Digit := Fin 10

/-- The character that writes a digit. -/
def Digit.char (d : Digit) : Char := Char.ofNat (48 + d.val)

/-- The digit that an ASCII character writes. -/
def digit? (c : Char) : Option Digit :=
  if h : 48 ≤ c.toNat ∧ c.toNat < 58 then some ⟨c.toNat - 48, by omega⟩ else none

theorem digit?_char (d : Digit) : digit? d.char = some d := by
  revert d; decide

/-- The digits of a number, without a leading zero except for the number zero. -/
def digits (n : Nat) : List Digit :=
  if h : n < 10 then [⟨n, h⟩] else digits (n / 10) ++ [⟨n % 10, by omega⟩]
termination_by n

/-- The number that digits stand for. -/
def ofDigits (ds : List Digit) : Nat := ds.foldl (fun n d => 10 * n + d.val) 0

theorem ofDigits_append_singleton (ds : List Digit) (d : Digit) :
    ofDigits (ds ++ [d]) = 10 * ofDigits ds + d.val := by
  simp [ofDigits, List.foldl_append]

/-- **The digits of a number stand for it.** -/
theorem ofDigits_digits (n : Nat) : ofDigits (digits n) = n := by
  induction n using Nat.strongRecOn with
  | _ n ih =>
    unfold digits
    by_cases h : n < 10
    · simp [h, ofDigits]
    · simp only [h, dite_false, ofDigits_append_singleton, ih (n / 10) (by omega)]
      omega

theorem digits_length_pos (n : Nat) : 0 < (digits n).length := by
  unfold digits
  split <;> simp

/-- Splits off the digits that a text begins with. -/
def takeDigits : List Char → List Digit × List Char
  | [] => ([], [])
  | c :: cs =>
    match digit? c with
    | some d => let r := takeDigits cs; (d :: r.1, r.2)
    | none => ([], c :: cs)

/-- Digits as text. -/
def digitsText (ds : List Digit) : String := String.ofList (ds.map Digit.char)

/-- A natural number as text. -/
def natText (n : Nat) : String := digitsText (digits n)

/-- An integer as text, with a sign only when it is negative. -/
def intText (n : Int) : String :=
  if n < 0 then "-" ++ natText n.natAbs else natText n.natAbs

/-- Digits with zeros in front, up to a width. -/
def padDigits (width : Nat) (ds : List Digit) : List Digit :=
  List.replicate (width - ds.length) 0 ++ ds

/-- A natural number as text with zeros in front, up to a width. -/
def paddedText (width n : Nat) : String := digitsText (padDigits width (digits n))

end Tabula.Decimal
