/-
# Numbers of a fixed width

A number that is written with zeros in front, up to a width that it fits, takes exactly that width
(`length_padDigits`) and still stands for itself (`ofDigits_padDigits`).  Digits of one length
compare, the first one that differs first, as the numbers do that they stand for
(`append_lt_append_iff`).
-/
import Mathlib.Tactic.Ring
import Tabula.Proofs.Decimal.Numerals

namespace Tabula.Decimal

/-! ## 1. Width -/

theorem paddedText_toList (width n : Nat) :
    (paddedText width n).toList = (padDigits width (digits n)).map Digit.char := by
  simp [paddedText, digitsText]

theorem length_digits_le {width n : Nat} (hwidth : 0 < width) (h : n < 10 ^ width) :
    (digits n).length ≤ width := by
  induction width generalizing n with
  | zero => exact absurd hwidth (Nat.lt_irrefl 0)
  | succ width ih =>
    unfold digits
    by_cases hn : n < 10
    · simp [hn]
    · have hrest : n / 10 < 10 ^ width := by
        rw [Nat.div_lt_iff_lt_mul (by decide), ← Nat.pow_succ]
        exact h
      have hpos : 0 < width := by
        rcases Nat.eq_zero_or_pos width with rfl | hpos
        · rw [Nat.pow_zero] at hrest
          omega
        · exact hpos
      have hlength := ih hpos hrest
      simp only [hn, dite_false, List.length_append, List.length_cons, List.length_nil]
      omega

/-- A number takes the width that it is padded to, if it fits. -/
theorem length_padDigits {width n : Nat} (hwidth : 0 < width) (h : n < 10 ^ width) :
    (padDigits width (digits n)).length = width := by
  have hlength := length_digits_le hwidth h
  simp only [padDigits, List.length_append, List.length_replicate]
  omega

/-! ## 2. Value -/

theorem foldl_digits (ds : List Digit) (n : Nat) :
    ds.foldl (fun n d => 10 * n + d.val) n = n * 10 ^ ds.length + ofDigits ds := by
  induction ds generalizing n with
  | nil => simp [ofDigits]
  | cons d ds ih =>
    have hcons : ofDigits (d :: ds) = (10 * 0 + d.val) * 10 ^ ds.length + ofDigits ds := ih _
    rw [List.foldl_cons, ih, hcons, List.length_cons, Nat.pow_succ]
    ring

theorem ofDigits_cons (d : Digit) (ds : List Digit) :
    ofDigits (d :: ds) = d.val * 10 ^ ds.length + ofDigits ds := by
  rw [ofDigits, List.foldl_cons, foldl_digits]
  simp

theorem ofDigits_lt (ds : List Digit) : ofDigits ds < 10 ^ ds.length := by
  induction ds with
  | nil => decide
  | cons d ds ih =>
    have hd : d.val + 1 ≤ 10 := d.isLt
    rw [ofDigits_cons, List.length_cons, Nat.pow_succ]
    calc d.val * 10 ^ ds.length + ofDigits ds
        < d.val * 10 ^ ds.length + 10 ^ ds.length := Nat.add_lt_add_left ih _
      _ = (d.val + 1) * 10 ^ ds.length := by ring
      _ ≤ 10 * 10 ^ ds.length := Nat.mul_le_mul_right _ hd
      _ = 10 ^ ds.length * 10 := Nat.mul_comm ..

/-- Zeros in front do not change the number. -/
@[simp] theorem ofDigits_padDigits (width n : Nat) :
    ofDigits (padDigits width (digits n)) = n := by
  unfold padDigits
  induction width - (digits n).length with
  | zero => exact ofDigits_digits n
  | succ k ih =>
    rw [List.replicate_succ, List.cons_append, ofDigits_cons, ih]
    simp

/-! ## 3. Order -/

/-- Texts that begin with digits of one length compare by the numbers, and by what follows if the
numbers are the same.  Digits may be written in any way that keeps their order. -/
theorem append_lt_append_iff {α : Type} [LT α] {write : Digit → α}
    (hwrite : ∀ d e, write d < write e ↔ d.val < e.val) (hinj : write.Injective) {ds es : List Digit}
    (h : ds.length = es.length) (r s : List α) :
    ds.map write ++ r < es.map write ++ s ↔
      ofDigits ds < ofDigits es ∨ ofDigits ds = ofDigits es ∧ r < s := by
  induction ds generalizing es with
  | nil =>
    obtain rfl : es = [] := List.eq_nil_of_length_eq_zero h.symm
    simp
  | cons d ds ih =>
    obtain ⟨e, es, rfl⟩ := List.exists_cons_of_length_eq_add_one h.symm
    have hlength : ds.length = es.length := Nat.succ_inj.mp h
    have hds := ofDigits_lt ds
    have hes := ofDigits_lt es
    rw [List.map_cons, List.map_cons, List.cons_append, List.cons_append, List.cons_lt_cons_iff,
      hwrite, hinj.eq_iff, ih hlength, ofDigits_cons, ofDigits_cons, hlength]
    rw [hlength] at hds
    -- A difference of the first digits outweighs all the digits after them.
    rcases Nat.lt_trichotomy d.val e.val with hde | hde | hde
    · have hstep : (d.val + 1) * 10 ^ es.length ≤ e.val * 10 ^ es.length :=
        Nat.mul_le_mul_right _ hde
      rw [Nat.add_mul, Nat.one_mul] at hstep
      simp only [hde, true_or, true_iff]
      omega
    · obtain rfl : d = e := Fin.ext hde
      simp
    · have hstep : (e.val + 1) * 10 ^ es.length ≤ d.val * 10 ^ es.length :=
        Nat.mul_le_mul_right _ hde
      rw [Nat.add_mul, Nat.one_mul] at hstep
      have hne : d ≠ e := fun heq => Nat.lt_irrefl e.val (heq ▸ hde)
      simp only [Nat.lt_asymm hde, hne, false_and, or_false, false_iff]
      omega

end Tabula.Decimal
