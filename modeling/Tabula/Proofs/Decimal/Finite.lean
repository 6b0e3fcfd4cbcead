/-
# Numerals are read as finite floats

A numeral out of the range of floats is refused rather than read as infinite, and so every float
that a numeral is read as is finite (`isFinite_of_toFloat?`).  Only a product is tested for this by
the reader.  A quotient needs an argument: what is divided is at most a number of 64 bits, a power
of ten is not small, and no rounding raises an exponent by more than one.

Floats are taken as the language defines them, by a sign, a mantissa and an exponent that are
rounded to 53 bits and packed into 64.

* `roundWithAccuracy_cases`: what rounding can do to a mantissa and an exponent.
* `below_unpack_pack`, `isInf_or_below_unpack_pack`: what packing keeps.
* `large_powerOfTen`: the powers of ten of the reader are finite and not small.
-/
import Mathlib
import Tabula.Decimal.Shortest

namespace Tabula.Decimal

open Float.Model Float.Model.UnpackedFloat

/-! ## 1. Rounding -/

theorem log2_le_of_lt {n k : Nat} (h : n < 2 ^ (k + 1)) : n.log2 ≤ k := by
  by_cases hn : n = 0
  · rw [hn, show Nat.log2 0 = 0 from by decide]
    omega
  · exact Nat.le_of_lt_succ ((Nat.log2_lt hn).mpr h)

theorem log2_le_of_le_mul {q m k : Nat} (h : q ≤ m * 2 ^ k) : q.log2 ≤ m.log2 + k := by
  refine log2_le_of_lt ?_
  calc q ≤ m * 2 ^ k := h
    _ < 2 ^ (m.log2 + 1) * 2 ^ k :=
      Nat.mul_lt_mul_of_pos_right Nat.lt_log2_self (Nat.two_pow_pos k)
    _ = 2 ^ (m.log2 + k + 1) := by rw [← Nat.pow_add]; congr 1; omega

theorem targetExponent_binary64 (x : Int) :
    Format.binary64.targetExponent x = max (x - 53) (-1074) := by
  simp [Format.targetExponent, Format.mantissaBits, Format.minExponent]

theorem exponentBias_binary64 : Format.binary64.exponentBias = 1023 := by decide

theorem mantissa_shiftRight (em : ExtendedMantissa) (n : Nat) :
    (em >>> n).mantissa = em.mantissa / 2 ^ n := by
  induction n with
  | zero => exact (Nat.div_one _).symm
  | succ n ih =>
    rw [Nat.pow_succ, ← Nat.div_div_eq_div_mul, ← ih]
    rfl

theorem roundedMantissa_bounds (em : ExtendedMantissa) :
    em.mantissa ≤ em.roundedMantissa ∧ em.roundedMantissa ≤ em.mantissa + 1 := by
  obtain ⟨m, round, sticky⟩ := em
  cases round <;> cases sticky <;>
    simp only [ExtendedMantissa.roundedMantissa, ExtendedMantissa.accuracy,
      Accuracy.roundToNearestEven] <;> omega

theorem mantissa_ofMantissaAndAccuracy (m : Nat) (a : Accuracy) :
    (ExtendedMantissa.ofMantissaAndAccuracy m a).mantissa = m := by
  cases a with
  | exact => rfl
  | inexact o => cases o <;> rfl

/-- A mantissa is shifted until it has 53 bits, and further if its exponent would be too small. -/
theorem shiftToTargetExponent_binary64 (m : Nat) (e : Int) (a : Accuracy) :
    ∃ em, ∃ n : Nat, shiftToTargetExponent .binary64 m e a = (em, e + n) ∧
      em.mantissa = m / 2 ^ n ∧ e + n = max e (max (m.log2 + e - 52) (-1074)) := by
  refine ⟨_, _, rfl, ?_, ?_⟩
  · rw [mantissa_shiftRight, mantissa_ofMantissaAndAccuracy]
  · rw [targetExponent_binary64, totalExponent]
    omega

/-- A mantissa that was rounded up to a bit more is shifted by one more place. -/
theorem shiftToTargetExponent_rounded {m : Nat} {e : Int} (hm : m ≤ 2 ^ 53) (he : -1074 ≤ e) :
    ∃ em, ∃ n : Nat, shiftToTargetExponent .binary64 m e .exact = (em, e + n) ∧ n ≤ 1 ∧
      (2 ^ 52 ≤ m → em.mantissa.log2 = 52) := by
  obtain ⟨em, n, hshift, hem, hn⟩ := shiftToTargetExponent_binary64 m e .exact
  refine ⟨em, n, hshift, ?_⟩
  rcases Nat.lt_or_eq_of_le hm with hlt | rfl
  · have hlog : m.log2 ≤ 52 := log2_le_of_lt hlt
    obtain rfl : n = 0 := by omega
    rw [Nat.pow_zero, Nat.div_one] at hem
    refine ⟨by omega, fun hlow => ?_⟩
    have hm0 : m ≠ 0 := Nat.ne_of_gt (Nat.lt_of_lt_of_le (by decide) hlow)
    rw [hem]
    exact (Nat.log2_eq_iff hm0).mpr ⟨hlow, hlt⟩
  · rw [Nat.log2_two_pow] at hn
    obtain rfl : n = 1 := by omega
    exact ⟨by omega, fun _ => by rw [hem]; decide⟩

/-- What rounding can give.  The exponent is raised as far as the format asks, and by one more if
rounding overflows the mantissa; a mantissa with bits to spare comes out with 53 of them. -/
theorem roundWithAccuracy_cases (s : Sign) (m : Nat) (e : Int) (a : Accuracy) :
    ∃ n : Nat, e + n = max e (max (m.log2 + e - 52) (-1074)) ∧
      ((roundWithAccuracy .binary64 s m e a = .zero s ∧ m < 2 ^ (n + 52)) ∨
        ∃ m' e' h, roundWithAccuracy .binary64 s m e a = .finite s m' e' h ∧
          (e + n ≤ e' ∧ e' ≤ e + n + 1) ∧ (2 ^ (n + 52) ≤ m → m'.log2 = 52)) := by
  obtain ⟨em, n, hfirst, hem, hn⟩ := shiftToTargetExponent_binary64 m e a
  obtain ⟨hlow, hhigh⟩ := roundedMantissa_bounds em
  have hbits : em.mantissa < 2 ^ 53 := by
    rw [hem, Nat.div_lt_iff_lt_mul (Nat.two_pow_pos n), ← Nat.pow_add]
    exact Nat.lt_of_lt_of_le Nat.lt_log2_self (Nat.pow_le_pow_right (by decide) (by omega))
  obtain ⟨em', n', hsecond, hn', hlog⟩ :=
    shiftToTargetExponent_rounded (m := em.roundedMantissa) (e := e + n) (by omega) (by omega)
  have hnormal : 2 ^ (n + 52) ≤ m → em'.mantissa.log2 = 52 := by
    intro hm
    refine hlog (Nat.le_trans ?_ hlow)
    rwa [hem, Nat.le_div_iff_mul_le (Nat.two_pow_pos n), ← Nat.pow_add, Nat.add_comm 52 n]
  refine ⟨n, hn, ?_⟩
  unfold roundWithAccuracy
  simp only [hfirst, hsecond]
  split
  case isTrue h =>
    refine .inl ⟨rfl, Nat.lt_of_not_le fun hm => ?_⟩
    have hlog0 := hnormal hm
    rw [h] at hlog0
    exact absurd hlog0 (by decide)
  case isFalse h =>
    exact .inr ⟨em'.mantissa, e + n + n', Nat.pos_of_ne_zero h, rfl, by omega, hnormal⟩

/-! ## 2. Packing -/

/-- A number whose exponent is at most `b`. -/
def Below (b : Int) : UnpackedFloat → Prop
  | .zero _ => True
  | .finite _ _ e _ => e ≤ b
  | _ => False

/-- A number other than zero that is not small. -/
def Large : UnpackedFloat → Bool
  | .finite _ _ e _ => -52 ≤ e
  | _ => false

theorem Below.isFinite {u : UnpackedFloat} {b : Int} (h : Below b u) : u.isFinite := by
  cases u with
  | zero s => rfl
  | finite s m e h => rfl
  | notANumber => exact h.elim
  | infinity s => exact h.elim

theorem isFinite_of_large {u : UnpackedFloat} (h : Large u) : u.isFinite := by
  cases u with
  | finite s m e h' => rfl
  | _ => cases h

/-- The mantissa of a number has 53 bits at most, and its exponent a largest value. -/
theorem unpack_bounds {w : BitVec Format.binary64.numBits} {s m e h}
    (hw : UnpackedFloat.unpack .binary64 w = .finite s m e h) : m.log2 ≤ 52 ∧ e ≤ 971 := by
  have hexponent : (unpackExponent w).toNat < 2 ^ 11 := BitVec.isLt _
  simp only [UnpackedFloat.unpack, exponentBias_binary64] at hw
  split at hw
  case isTrue => split at hw <;> cases hw
  case isFalse hmax =>
    have hlt : (unpackExponent w).toNat ≠ 2047 := fun h => hmax (BitVec.eq_of_toNat_eq h)
    split at hw
    case isTrue hzero =>
      have hw0 : (unpackExponent w).toNat = 0 := congrArg BitVec.toNat hzero
      split at hw
      · cases hw
      · cases hw
        have hm : (unpackMantissa w).toNat < 2 ^ 52 := BitVec.isLt _
        exact ⟨log2_le_of_lt (by omega), by omega⟩
    case isFalse =>
      cases hw
      exact ⟨log2_le_of_lt (BitVec.isLt _), by omega⟩

theorem below_unpack {w : BitVec Format.binary64.numBits} {b : Int} (hb : -1074 ≤ b)
    (hmax : (unpackExponent w).toNat ≠ 2047) (hw : ((unpackExponent w).toNat : Int) - 1075 ≤ b) :
    Below b (UnpackedFloat.unpack .binary64 w) := by
  have hne : unpackExponent w ≠ -1#_ := by
    intro h
    rw [h] at hmax
    exact hmax rfl
  simp only [UnpackedFloat.unpack, exponentBias_binary64, hne, ite_false]
  split
  case isTrue hzero =>
    have hw0 : (unpackExponent w).toNat = 0 := congrArg BitVec.toNat hzero
    split
    · trivial
    · simp only [Below]; omega
  case isFalse => simp only [Below]; omega

theorem large_unpack {w : BitVec Format.binary64.numBits} (hlow : 1023 ≤ (unpackExponent w).toNat)
    (hhigh : (unpackExponent w).toNat ≠ 2047) : Large (UnpackedFloat.unpack .binary64 w) := by
  have hmax : unpackExponent w ≠ -1#_ := by
    intro h
    rw [h] at hhigh
    exact hhigh rfl
  have hzero : unpackExponent w ≠ 0#_ := by
    intro h
    rw [h] at hlow
    exact absurd hlow (by decide)
  simp only [UnpackedFloat.unpack, exponentBias_binary64, hmax, hzero, ite_false, Large,
    decide_eq_true_eq]
  omega

/-- Packing keeps a number unless its exponent is too large. -/
theorem below_unpack_pack {u : UnpackedFloat} {b : Int} (hu : Below b u) (hlow : -1074 ≤ b)
    (hhigh : b ≤ 971) : Below b (Float.Model.pack u).unpack := by
  cases u with
  | zero s => cases s <;> exact trivial
  | finite s m e h =>
    simp only [Below] at hu
    unfold Float.Model.unpack Float.Model.pack UnpackedFloat.pack
    simp only [exponentBias_binary64]
    rw [if_neg (by omega)]
    split <;> refine below_unpack hlow ?_ ?_ <;>
      simp only [unpackExponent_packComponents, BitVec.toNat_ofNat] <;>
      omega
  | notANumber => exact hu.elim
  | infinity s => exact hu.elim

/-- A number that packing does not keep becomes infinite. -/
theorem isInf_or_below_unpack_pack {u : UnpackedFloat} (hu : u.isFinite) :
    (Float.Model.pack u).unpack.isInf ∨ Below 971 (Float.Model.pack u).unpack := by
  cases u with
  | zero s => cases s <;> exact .inr trivial
  | finite s m e h =>
    by_cases he : e ≤ 971
    · exact .inr (below_unpack_pack he (by decide) (by decide))
    · left
      unfold Float.Model.unpack Float.Model.pack UnpackedFloat.pack
      simp only [exponentBias_binary64]
      rw [if_pos (by omega)]
      cases s <;> rfl
  | notANumber => cases hu
  | infinity s => cases hu

theorem large_unpack_pack {s : Sign} {m : Nat} {e : Int} {h : 0 < m} (hm : m.log2 = 52)
    (hlow : -52 ≤ e) (hhigh : e ≤ 971) :
    Large (Float.Model.pack (.finite s m e h)).unpack := by
  unfold Float.Model.unpack Float.Model.pack UnpackedFloat.pack
  simp only [exponentBias_binary64]
  rw [if_neg (by omega), if_pos (by rw [hm]; rfl)]
  refine large_unpack ?_ ?_ <;>
    simp only [unpackExponent_packComponents, BitVec.toNat_ofNat] <;>
    omega

/-! ## 3. Arithmetic -/

theorem below_roundWithAccuracy (s : Sign) {m : Nat} {e b : Int} (a : Accuracy)
    (h : max e (max (m.log2 + e - 52) (-1074)) < b) :
    Below b (roundWithAccuracy .binary64 s m e a) := by
  obtain ⟨n, hn, ⟨hzero, -⟩ | ⟨m', e', h', hfinite, he', -⟩⟩ := roundWithAccuracy_cases s m e a
  · rw [hzero]
    trivial
  · rw [hfinite]
    simp only [Below]
    omega

/-- A product of numbers is a number, however large. -/
theorem isFinite_mul {u v : UnpackedFloat} (hu : u.isFinite) (hv : v.isFinite) :
    (UnpackedFloat.mul .binary64 u v).isFinite := by
  cases u with
  | zero s => cases v with
    | zero s' => rfl
    | finite s' m' e' h' => rfl
    | _ => cases hv
  | finite s m e h => cases v with
    | zero s' => rfl
    | finite s' m' e' h' => exact (below_roundWithAccuracy _ _ (Int.lt_succ _)).isFinite
    | _ => cases hv
  | _ => cases hu

/-- A quotient by a number that is not small is not much larger than what is divided. -/
theorem below_div {w : BitVec Format.binary64.numBits} {b : Int} {v : UnpackedFloat}
    (hw : Below b (UnpackedFloat.unpack .binary64 w)) (hv : Large v) (hb : 0 ≤ b) :
    Below (b + 53) (UnpackedFloat.div .binary64 (UnpackedFloat.unpack .binary64 w) v) := by
  cases v with
  | finite s m e h =>
    have he : -52 ≤ e := of_decide_eq_true hv
    cases hu : UnpackedFloat.unpack .binary64 w with
    | zero s' => trivial
    | finite s' m' e' h' =>
      have hm' := (unpack_bounds hu).1
      simp only [hu, Below] at hw
      simp only [UnpackedFloat.div, divCore]
      apply below_roundWithAccuracy
      generalize ht : min (e' - e) _ = t
      have hlog : ((m' <<< (e' - e - t).toNat) / m).log2 ≤ m'.log2 + (e' - e - t).toNat :=
        log2_le_of_le_mul (Nat.shiftLeft_eq _ _ ▸ Nat.div_le_self _ _)
      omega
    | notANumber => rw [hu] at hw; exact hw.elim
    | infinity s' => rw [hu] at hw; exact hw.elim
  | _ => cases hv

/-- A number of 64 bits. -/
theorem below_ofNat {n : Nat} (h : n < 2 ^ 64) : Below 12 (UnpackedFloat.ofNat .binary64 n) := by
  rcases Nat.eq_zero_or_pos n with rfl | hn
  · trivial
  · have hlog : n.log2 ≤ 63 := log2_le_of_lt h
    have hcompare : compare (n : Int) 0 = .gt := by
      rw [show compare (n : Int) 0 = compareOfLessAndEq (n : Int) 0 from rfl, compareOfLessAndEq,
        if_neg (by omega), if_neg (by omega)]
    simp only [UnpackedFloat.ofNat, UnpackedFloat.ofInt, UnpackedFloat.normalize, hcompare,
      UnpackedFloat.round, decreaseExponent, Int.toNat_natCast]
    apply below_roundWithAccuracy
    generalize ht : Format.targetExponent _ _ = t
    rw [targetExponent_binary64, totalExponent] at ht
    have hshift : (n <<< (0 - t).toNat).log2 ≤ n.log2 + (0 - t).toNat :=
      log2_le_of_le_mul (Nat.le_of_eq (Nat.shiftLeft_eq _ _))
    omega

theorem isFinite_mul_of_not_isInf {x y : Float} (hx : x.isFinite) (hy : y.isFinite)
    (h : ¬(x * y).isInf) : (x * y).isFinite :=
  ((isInf_or_below_unpack_pack (isFinite_mul hx hy)).resolve_left h).isFinite

theorem below_float_div {x y : Float} {b : Int} (hx : Below b x.toModel.unpack)
    (hy : Large y.toModel.unpack) (hlow : 0 ≤ b) (hhigh : b ≤ 918) :
    Below (b + 53) (x / y).toModel.unpack :=
  below_unpack_pack (below_div hx hy hlow) (by omega) (by omega)

theorem isFinite_neg {x : Float} (h : x.isFinite) : (-x).isFinite := by
  have hx : x.toModel.unpack.isFinite := h
  change (Float.Model.pack x.toModel.unpack.neg).unpack.isFinite
  cases hu : x.toModel.unpack with
  | zero s => cases s <;> rfl
  | finite s m e h' =>
    have hneg : Below 971 (.finite (-s) m e h') := (unpack_bounds hu).2
    exact (below_unpack_pack hneg (by decide) (by decide)).isFinite
  | notANumber => rw [hu] at hx; cases hx
  | infinity s => rw [hu] at hx; cases hx

/-! ## 4. Powers of ten -/

theorem log2_ten_pow_le {k : Nat} (h : k ≤ 307) : (10 ^ k).log2 ≤ 1019 :=
  log2_le_of_lt
    (Nat.lt_of_le_of_lt (Nat.pow_le_pow_right (by decide) h) (by decide +kernel))

/-- A power of ten that stands in no table is rounded once. -/
theorem unpack_powerOfTen {k : Nat} (hlow : 23 ≤ k) (hhigh : k ≤ 308) :
    (Numeral.powerOfTen k).toModel.unpack = (Float.Model.pack
      (roundWithAccuracy .binary64 .positive ((1 <<< 53) * 10 ^ k) (-53) .exact)).unpack := by
  unfold Numeral.powerOfTen Float.ofScientific
  rw [dif_neg (by omega)]
  simp only [Bool.false_eq_true, ite_false, Float.Model.ofScientific, UnpackedFloat.ofScientific]
  rw [dif_neg (by decide), if_neg (by simp; omega), if_neg (by simp; omega), if_pos (by simp)]
  rfl

/-- The powers of ten that the reader scales by are finite and not small.  Those of the table are
looked at one by one, and so is the last one, which rounding might have made infinite. -/
theorem large_powerOfTen {k : Nat} (h : k ≤ 308) :
    Large (Numeral.powerOfTen k).toModel.unpack := by
  by_cases htable : k < 23
  · have hall : ∀ k < 23, Large (Numeral.powerOfTen k).toModel.unpack := by decide +kernel
    exact hall k htable
  by_cases hlast : k = 308
  · subst hlast
    decide +kernel
  have hlog := log2_ten_pow_le (k := k) (by omega)
  rw [unpack_powerOfTen (by omega) h]
  generalize hm : (1 <<< 53) * 10 ^ k = m
  have hmlow : 2 ^ 53 ≤ m := by
    rw [← hm]
    exact Nat.le_mul_of_pos_right _ (Nat.pow_pos (by decide))
  have hmpos : m ≠ 0 := by omega
  have hmlog : 53 ≤ m.log2 := (Nat.le_log2 hmpos).mpr hmlow
  have hmhigh : m.log2 ≤ (10 ^ k).log2 + 53 := by
    refine log2_le_of_le_mul (Nat.le_of_eq ?_)
    rw [← hm, Nat.mul_comm]
    rfl
  obtain ⟨n, hn, hround⟩ := roundWithAccuracy_cases .positive m (-53) .exact
  have hbits : n + 52 = m.log2 := by clear hround; omega
  have hnormal : 2 ^ (n + 52) ≤ m := hbits ▸ Nat.log2_self_le hmpos
  rcases hround with ⟨-, hzero⟩ | ⟨m', e', h', hfinite, he', hm'⟩
  · omega
  · have he'low : -52 ≤ e' := by omega
    have he'high : e' ≤ 971 := by omega
    rw [hfinite]
    exact large_unpack_pack (hm' hnormal) he'low he'high

/-! ## 5. Numerals -/

theorem isFinite_of_scaled? {x y : Float} {e : Int} (hx : Below 12 x.toModel.unpack)
    (h : Numeral.scaled? x e = some y) : y.isFinite := by
  unfold Numeral.scaled? at h
  split at h
  case isTrue =>
    split at h
    · simp only at h
      split at h
      case isTrue => cases h
      case isFalse hinf =>
        cases h
        exact isFinite_mul_of_not_isInf hx.isFinite
          (isFinite_of_large (large_powerOfTen (by omega))) hinf
    · split at h
      · cases h
        exact hx.isFinite
      · cases h
  case isFalse =>
    split at h
    · cases h
      exact (below_float_div hx (large_powerOfTen (by omega)) (by decide) (by decide)).isFinite
    · split at h
      · cases h
        have hfirst := below_float_div hx (large_powerOfTen (k := 308) (by decide)) (by decide)
          (by decide)
        exact (below_float_div hfirst (large_powerOfTen (by omega)) (by decide)
          (by decide)).isFinite
      · cases h
        rfl

/-- **Every float that a numeral is read as is finite.** -/
theorem isFinite_of_toFloat? {n : Numeral} {x : Float} (h : n.toFloat? = some x) : x.isFinite := by
  unfold Numeral.toFloat? at h
  obtain ⟨y, hy, rfl⟩ := Option.map_eq_some_iff.mp h
  have hleading : Below 12 (n.leading.1.toUInt64.toFloat).toModel.unpack :=
    below_unpack_pack (below_ofNat (UInt64.toNat_lt _)) (by decide) (by decide)
  have hfinite := isFinite_of_scaled? hleading hy
  split
  · exact isFinite_neg hfinite
  · exact hfinite

theorem toNat_unpackExponent (w : BitVec Format.binary64.numBits) :
    (unpackExponent w).toNat = w.toNat / Nat.pow 2 52 % Nat.pow 2 11 := by
  simp [unpackExponent, Nat.shiftRight_eq_div_pow]

theorem toNat_unpackExponent_ne {w : BitVec Format.binary64.numBits}
    (h : (UnpackedFloat.unpack .binary64 w).isFinite) : (unpackExponent w).toNat ≠ 2047 := by
  intro hmax
  have hw : unpackExponent w = -1#_ := BitVec.eq_of_toNat_eq hmax
  simp only [UnpackedFloat.unpack, hw, ite_true] at h
  split at h <;> cases h

/-- The bits of a finite float stand for a finite number. -/
theorem exists_ofFloat_eq_finite {x : Float} (h : x.isFinite) :
    ∃ negative magnitude, FloatReading.ofFloat x = .finite negative magnitude := by
  have hmax : x.toBits.toNat / Nat.pow 2 52 % Nat.pow 2 11 ≠ 2047 :=
    toNat_unpackExponent _ ▸ toNat_unpackExponent_ne h
  unfold FloatReading.ofFloat FloatReading.ofBits
  simp only
  rw [if_neg hmax]
  split <;> exact ⟨_, _, rfl⟩

end Tabula.Decimal
