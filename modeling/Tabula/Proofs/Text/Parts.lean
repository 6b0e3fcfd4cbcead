/-
# Quoted texts, words and numbers

What statements are put together from, apart from blanks and marks.  Where such a part ends is known
from what it is: a quoted text ends at the first quote that is not doubled (`enclosed_append_inj`), a
word at the first character of another kind (`IsWord.append_inj`).  Numbers are words
(`isWord_intText`, `isWord_floatText`).
-/
import Tabula.Decimal.Shortest
import Tabula.Proofs.Decimal.Numerals
import Tabula.Text.Quoted

namespace Tabula.Text

open Tabula.Decimal

/-! ## 1. Quoted texts -/

variable {q : Char} {r s cs ds : List Char} {a b : String}

@[simp] theorem doubled_nil : doubled q [] = [] := rfl

theorem doubled_cons_self : doubled q (q :: cs) = q :: q :: doubled q cs := by
  simp [doubled]

theorem doubled_cons_of_ne {c : Char} (h : c ≠ q) : doubled q (c :: cs) = c :: doubled q cs := by
  simp [doubled, h]

/-- A quote with another one behind it goes on. -/
theorem cons_ne_doubled_cons {d : Char} (hr : r.head? ≠ some q) :
    q :: r ≠ doubled q (d :: ds) ++ q :: s := by
  intro h
  by_cases hd : d = q
  · subst hd
    rw [doubled_cons_self] at h
    exact hr (congrArg List.head? (List.cons.inj h).2)
  · rw [doubled_cons_of_ne hd] at h
    exact hd (List.cons.inj h).1.symm

theorem doubled_append_inj (hr : r.head? ≠ some q) (hs : s.head? ≠ some q)
    (h : doubled q cs ++ q :: r = doubled q ds ++ q :: s) : cs = ds ∧ r = s := by
  induction cs generalizing ds with
  | nil =>
    cases ds with
    | nil => exact ⟨rfl, (List.cons.inj h).2⟩
    | cons d ds => exact absurd h (cons_ne_doubled_cons hr)
  | cons c cs ih =>
    cases ds with
    | nil => exact absurd h.symm (cons_ne_doubled_cons hs)
    | cons d ds =>
      by_cases hc : c = q <;> by_cases hd : d = q
      · subst hc hd
        rw [doubled_cons_self, doubled_cons_self] at h
        obtain ⟨rfl, hrest⟩ := ih (List.cons.inj (List.cons.inj h).2).2
        exact ⟨rfl, hrest⟩
      · rw [doubled_cons_of_ne hd, hc, doubled_cons_self] at h
        exact absurd (List.cons.inj h).1.symm hd
      · rw [doubled_cons_of_ne hc, hd, doubled_cons_self] at h
        exact absurd (List.cons.inj h).1 hc
      · rw [doubled_cons_of_ne hc, doubled_cons_of_ne hd] at h
        obtain ⟨rfl, htail⟩ := List.cons.inj h
        obtain ⟨rfl, hrest⟩ := ih htail
        exact ⟨rfl, hrest⟩

theorem toList_enclosed_append :
    (enclosed q a).toList ++ r = q :: (doubled q a.toList ++ q :: r) := by
  simp [enclosed]

/-- **Quoted texts are the same only if what they enclose is.** -/
theorem enclosed_append_inj (hr : r.head? ≠ some q) (hs : s.head? ≠ some q)
    (h : (enclosed q a).toList ++ r = (enclosed q b).toList ++ s) : a = b ∧ r = s := by
  rw [toList_enclosed_append, toList_enclosed_append] at h
  obtain ⟨hlist, hrest⟩ := doubled_append_inj hr hs (List.cons.inj h).2
  exact ⟨String.toList_inj.mp hlist, hrest⟩

/-- The characters of a list of texts are those of the texts and of what separates them. -/
theorem mem_intercalate {c : Char} {sep : String} {ts : List String}
    (h : c ∈ (String.intercalate sep ts).toList) : c ∈ sep.toList ∨ ∃ t ∈ ts, c ∈ t.toList := by
  induction ts with
  | nil => exact absurd h (by simp)
  | cons t ts ih =>
    cases ts with
    | nil => exact .inr ⟨t, List.mem_cons_self, by simpa using h⟩
    | cons u us =>
      rw [String.intercalate_cons_cons, String.toList_append, String.toList_append, List.mem_append,
        List.mem_append] at h
      rcases h with (h | h) | h
      · exact .inr ⟨t, List.mem_cons_self, h⟩
      · exact .inl h
      · exact (ih h).imp id fun ⟨v, hv, hmem⟩ => ⟨v, List.mem_cons_of_mem _ hv, hmem⟩

/-! ## 2. Words -/

/-- A text of some characters of a kind. -/
structure IsWord (p : Char → Bool) (a : String) : Prop where
  ne_empty : a ≠ ""
  forall_mem : ∀ c ∈ a.toList, p c

variable {p p' : Char → Bool}

instance (a : String) : Decidable (IsWord p a) :=
  decidable_of_iff (a ≠ "" ∧ a.toList.all p)
    ⟨fun h => ⟨h.1, List.all_eq_true.mp h.2⟩,
      fun h => ⟨h.ne_empty, List.all_eq_true.mpr h.forall_mem⟩⟩

theorem IsWord.exists_cons (h : IsWord p a) : ∃ c cs, a.toList = c :: cs ∧ p c := by
  cases hlist : a.toList with
  | nil => exact absurd (String.toList_eq_nil_iff.mp hlist) h.ne_empty
  | cons c cs => exact ⟨c, cs, rfl, h.forall_mem c (by simp [hlist])⟩

theorem IsWord.mono (h : IsWord p a) (hp : ∀ c, p c → p' c) : IsWord p' a :=
  ⟨h.ne_empty, fun c hc => hp c (h.forall_mem c hc)⟩

/-- A word may go on with another one. -/
theorem IsWord.append (ha : IsWord p a) (hb : b = "" ∨ IsWord p b) : IsWord p (a ++ b) := by
  constructor
  · obtain ⟨c, cs, hlist, -⟩ := ha.exists_cons
    intro hempty
    simpa [hlist] using congrArg String.toList hempty
  · intro c hc
    rcases List.mem_append.mp (String.toList_append ▸ hc) with hc | hc
    · exact ha.forall_mem c hc
    · rcases hb with rfl | hb
      · exact absurd hc List.not_mem_nil
      · exact hb.forall_mem c hc

/-- A word ends where its characters do. -/
theorem IsWord.takeWhile_append (ha : IsWord p a) (hr : ∀ c ∈ r.head?, ¬p c) :
    (a.toList ++ r).takeWhile p = a.toList := by
  rw [List.takeWhile_append_of_pos ha.forall_mem]
  cases r with
  | nil => simp
  | cons c r =>
    have hc : ¬p c := hr c rfl
    simp [hc]

/-- **Words are the same if they begin at the same place.** -/
theorem IsWord.append_inj (ha : IsWord p a) (hb : IsWord p b) (hr : ∀ c ∈ r.head?, ¬p c)
    (hs : ∀ c ∈ s.head?, ¬p c) (h : a.toList ++ r = b.toList ++ s) : a = b ∧ r = s := by
  have hlist : a.toList = b.toList := by
    rw [← ha.takeWhile_append hr, ← hb.takeWhile_append hs, h]
  rw [hlist] at h
  exact ⟨String.toList_inj.mp hlist, List.append_cancel_left h⟩

/-! ## 3. Numbers -/

/-- The characters of numbers, and of the words `NaN`, `inf` and `NULL`. -/
def numberChars : List Char := "0123456789+-.einfNaUL".toList

/-- Whether a character is one of these. -/
def standsInNumber (c : Char) : Bool := c ∈ numberChars

theorem of_standsInNumber (h : numberChars.all p) {c : Char} (hc : standsInNumber c) : p c :=
  List.all_eq_true.mp h c (by simpa only [standsInNumber, decide_eq_true_eq] using hc)

theorem isWord_digitsText {ds : List Digit} (h : ds ≠ []) :
    IsWord standsInNumber (digitsText ds) := by
  have hdigit : ∀ d : Digit, standsInNumber d.char := by decide
  constructor
  · simpa [digitsText] using h
  · simpa [digitsText] using fun d _ => hdigit d

theorem isWord_natText (n : Nat) : IsWord standsInNumber (natText n) :=
  isWord_digitsText (digits_ne_nil n)

theorem isWord_intText (n : Int) : IsWord standsInNumber (intText n) := by
  unfold intText
  split
  · exact (by decide : IsWord standsInNumber "-").append (.inr (isWord_natText _))
  · exact isWord_natText _

theorem isWord_exponentText (e : Int) : IsWord standsInNumber (Numeral.exponentText e) := by
  unfold Numeral.exponentText
  split
  · exact (by decide : IsWord standsInNumber "e-").append (.inr (isWord_natText _))
  · exact (by decide : IsWord standsInNumber "e+").append (.inr (isWord_natText _))

theorem isWord_numeralText (n : Numeral) : IsWord standsInNumber n.text := by
  have hwhole : IsWord standsInNumber ((if n.negative then "-" else "") ++ natText n.whole) := by
    split
    · exact (by decide : IsWord standsInNumber "-").append (.inr (isWord_natText _))
    · simpa using isWord_natText n.whole
  refine (hwhole.append ?_).append ?_
  · split
    case isTrue => exact .inl rfl
    case isFalse hne =>
      exact .inr ((by decide : IsWord standsInNumber ".").append (.inr (isWord_digitsText hne)))
  · cases n.exponent with
    | none => exact .inl rfl
    | some e => exact .inr (isWord_exponentText e)

theorem isWord_floatText (x : Float) : IsWord standsInNumber (floatText x) := by
  unfold floatText
  split
  · decide
  · split <;> decide
  · exact isWord_numeralText _

end Tabula.Text
