/-
# What is written is read again

A value whose literals denote texts, and which is nowhere broken, is read from its own document
(`read_render`).  Each part of a document ends where it must: a text literal at the first quote that
no backslash precedes, a number at the separator after it.  The proof for values is by recursion on
the value, beside its lists of items and members; the reader's bound on its depth holds, since each
level of a value has a character of its own.
-/
import Tabula.Json.Printer
import Tabula.Json.Reader
import Tabula.Proofs.Decimal.Numerals

namespace Tabula.Json

open Tabula.Decimal

/-! ## 1. Text literals -/

theorem hexPiece?_hexChar : ∀ n < 0x20,
    hexPiece? '0' '0' (hexChar (n / 16)) (hexChar (n % 16)) = some (.char (Char.ofNat n)) := by
  decide

/-- An escaped character is read as itself. -/
theorem readPieces?_escapeChar (c : Char) (rest : List Char) :
    readPieces? (escapeChar c ++ rest) = consPiece (.char c) (readPieces? rest) := by
  by_cases hletter : c ∈ ['"', '\\', '\x08', '\t', '\n', '\x0c', '\r']
  · simp only [List.mem_cons, List.not_mem_nil, or_false] at hletter
    rcases hletter with rfl | rfl | rfl | rfl | rfl | rfl | rfl <;> rfl
  · simp only [List.mem_cons, List.not_mem_nil, or_false, not_or] at hletter
    obtain ⟨hquote, hbackslash, hb, ht, hn, hf, hr⟩ := hletter
    by_cases hcontrol : c.toNat < 0x20
    · have hhex := hexPiece?_hexChar c.toNat hcontrol
      rw [Char.ofNat_toNat] at hhex
      simp [escapeChar, hquote, hbackslash, hb, ht, hn, hf, hr, hcontrol, readPieces?, hhex]
    · simp [escapeChar, hquote, hbackslash, hb, ht, hn, hf, hr, hcontrol, readPieces?]

theorem readPieces?_escaped (cs rest : List Char) :
    readPieces? (cs.flatMap escapeChar ++ '"' :: rest) = some (cs.map .char, rest) := by
  induction cs with
  | nil => simp [readPieces?]
  | cons c cs ih => simp [List.append_assoc, readPieces?_escapeChar, ih, consPiece]

theorem denoted?_map_char (cs : List Char) : denoted? (cs.map .char) = some cs := by
  induction cs with
  | nil => rfl
  | cons c cs ih => simp [denoted?, ih]

/-- **A text literal is read as its text.** -/
theorem readText?_escaped (s : String) (rest : List Char) :
    readText? (s.toList.flatMap escapeChar ++ '"' :: rest) = some (some s, rest) := by
  simp [readText?, readPieces?_escaped, denoted?_map_char]

theorem textChars_append (s : String) (rest : List Char) :
    textChars s ++ rest = '"' :: (s.toList.flatMap escapeChar ++ '"' :: rest) := by
  simp [textChars]

theorem readKey?_textChars (key : String) (rest : List Char) :
    readKey? (textChars key ++ ':' :: rest) = some (some key, rest) := by
  rw [textChars_append]
  simp [readKey?, dropSpace, isSpace, readText?_escaped]

/-! ## 2. Values that can be written -/

mutual
/-- Whether nothing in the value is broken and every text literal denotes a text. -/
def isWritable : Json → Bool
  | string s => s.isSome
  | array items => allWritable items
  | object members => allMembersWritable members
  | broken => false
  | _ => true

/-- Whether every value of a list can be written. -/
def allWritable : List Json → Bool
  | [] => true
  | v :: vs => v.isWritable && allWritable vs

/-- Whether every member of a list can be written. -/
def allMembersWritable : List (Option String × Json) → Bool
  | [] => true
  | m :: ms => m.1.isSome && m.2.isWritable && allMembersWritable ms
end

/-- A text that ends the value before it. -/
def Closes (cs : List Char) : Prop := ∀ c ∈ cs.head?, c = ',' ∨ c = ']' ∨ c = '\x7d'

@[simp] theorem closes_nil : Closes [] := by simp [Closes]

@[simp] theorem closes_cons {c : Char} {cs : List Char} :
    Closes (c :: cs) ↔ c = ',' ∨ c = ']' ∨ c = '\x7d' := by
  simp [Closes]

theorem Closes.ends {cs : List Char} (h : Closes cs) : Numeral.Ends cs := by
  intro c hc
  rcases h c hc with rfl | rfl | rfl <;> decide

@[simp] theorem dropSpace_cons {c : Char} {cs : List Char} (h : isSpace c = false) :
    dropSpace (c :: cs) = c :: cs := by
  simp [dropSpace, h]

/-- A character that may begin a numeral is no other. -/
theorem ne_of_beginsNumeral {c d : Char} (h : c = '-' ∨ (digit? c).isSome)
    (hd : d ≠ '-' ∧ digit? d = none) : c ≠ d := by
  rintro rfl
  rcases h with h | h
  · exact hd.1 h
  · rw [hd.2] at h
    cases h

theorem isSpace_of_beginsNumeral {c : Char} (h : c = '-' ∨ (digit? c).isSome) :
    isSpace c = false := by
  simp only [isSpace, Bool.or_eq_false_iff, beq_eq_false_iff_ne]
  exact ⟨⟨⟨ne_of_beginsNumeral h (by decide), ne_of_beginsNumeral h (by decide)⟩,
    ne_of_beginsNumeral h (by decide)⟩, ne_of_beginsNumeral h (by decide)⟩

/-- A value begins with a character of its own. -/
theorem exists_chars_eq_cons {v : Json} (h : v.isWritable) :
    ∃ c cs, v.chars = c :: cs ∧ isSpace c = false ∧ c ≠ ']' := by
  cases v with
  | null => exact ⟨'n', _, rfl, by decide, by decide⟩
  | bool b => cases b <;> exact ⟨_, _, rfl, by decide, by decide⟩
  | number n =>
    obtain ⟨c, cs, hcs, hc⟩ := n.exists_text_eq_cons
    exact ⟨c, cs, by rw [chars, hcs], isSpace_of_beginsNumeral hc,
      ne_of_beginsNumeral hc (by decide)⟩
  | string s => exact ⟨'"', _, by rw [chars, textChars]; rfl, by decide, by decide⟩
  | array items => exact ⟨'[', _, by rw [chars]; rfl, by decide, by decide⟩
  | object members => exact ⟨'\x7b', _, by rw [chars]; rfl, by decide, by decide⟩
  | broken => simp [isWritable] at h

/-! ## 3. Reading values -/

theorem readValue_number (fuel : Nat) (n : Numeral) {rest : List Char} (h : Closes rest) :
    readValue (fuel + 1) (n.text.toList ++ rest) = (number n, rest) := by
  have hread := Numeral.read?_text n h.ends
  obtain ⟨c, cs, hcs, hc⟩ := n.exists_text_eq_cons
  rw [hcs, List.cons_append] at hread ⊢
  rw [readValue, dropSpace_cons (isSpace_of_beginsNumeral hc)]
  split
  case h_7 => rw [hread]
  all_goals
    rename_i heq
    exact absurd (List.cons.inj heq).1 (ne_of_beginsNumeral hc (by decide))

theorem readValue_text (fuel : Nat) (s : String) (rest : List Char) :
    readValue (fuel + 1) (textChars s ++ rest) = (text s, rest) := by
  rw [textChars_append, readValue, dropSpace_cons (by decide)]
  simp [readText?_escaped, text]

/-- What follows the first of some items. -/
theorem itemsChars_cons (v : Json) (vs : List Json) :
    itemsChars (v :: vs) = v.chars ++ if vs = [] then [] else ',' :: itemsChars vs := by
  cases vs <;> simp [itemsChars]

/-- What follows the first of some members. -/
theorem membersChars_cons (key : String) (v : Json) (ms : List (Option String × Json)) :
    membersChars ((some key, v) :: ms) =
      textChars key ++ ':' :: (v.chars ++ if ms = [] then [] else ',' :: membersChars ms) := by
  cases ms <;> simp [membersChars]

theorem readValue_array (fuel : Nat) {c : Char} (cs : List Char) (hspace : isSpace c = false)
    (hne : c ≠ ']') :
    readValue (fuel + 1) ('[' :: c :: cs) =
      (array (readItems fuel (c :: cs)).1, (readItems fuel (c :: cs)).2) := by
  rw [readValue, dropSpace_cons (by decide)]
  simp [dropSpace_cons hspace, hne]

theorem readValue_object (fuel : Nat) (key : String) (cs : List Char) :
    readValue (fuel + 1) ('\x7b' :: (textChars key ++ cs)) =
      (object (readMembers fuel (textChars key ++ cs)).1,
        (readMembers fuel (textChars key ++ cs)).2) := by
  rw [textChars_append, readValue, dropSpace_cons (by decide)]
  simp [dropSpace, isSpace]

section Steps

variable {fuel : Nat} {cs rest : List Char} {v : Json}

theorem readItems_last (h : readValue fuel cs = (v, ']' :: rest)) :
    readItems (fuel + 1) cs = ([v], rest) := by
  simp [readItems, h, dropSpace, isSpace]

theorem readItems_more (h : readValue fuel cs = (v, ',' :: rest)) :
    readItems (fuel + 1) cs = (v :: (readItems fuel rest).1, (readItems fuel rest).2) := by
  simp [readItems, h, dropSpace, isSpace]

theorem readMembers_last (key : String) (h : readValue fuel cs = (v, '\x7d' :: rest)) :
    readMembers (fuel + 1) (textChars key ++ ':' :: cs) = ([(some key, v)], rest) := by
  simp [readMembers, readKey?_textChars, h, dropSpace, isSpace]

theorem readMembers_more (key : String) (h : readValue fuel cs = (v, ',' :: rest)) :
    readMembers (fuel + 1) (textChars key ++ ':' :: cs) =
      ((some key, v) :: (readMembers fuel rest).1, (readMembers fuel rest).2) := by
  simp [readMembers, readKey?_textChars, h, dropSpace, isSpace]

end Steps

mutual
/-- A value is taken off the front of what follows it. -/
theorem readValue_chars : (v : Json) → v.isWritable → (fuel : Nat) → (rest : List Char) →
    v.chars.length < fuel → Closes rest → readValue fuel (v.chars ++ rest) = (v, rest)
  | _, _, 0, _, hfuel, _ => absurd hfuel (Nat.not_lt_zero _)
  | null, _, fuel + 1, rest, _, _ => by
    simp [chars, readValue, dropSpace, isSpace]
  | bool b, _, fuel + 1, rest, _, _ => by
    cases b <;> simp [chars, readValue, dropSpace, isSpace]
  | number n, _, fuel + 1, rest, _, hrest => readValue_number fuel n hrest
  | string (some s), _, fuel + 1, rest, _, _ => readValue_text fuel s rest
  | array [], _, fuel + 1, rest, _, _ => by
    simp [chars, itemsChars, readValue, dropSpace, isSpace]
  | array (v :: vs), hv, fuel + 1, rest, hfuel, _ => by
    rw [isWritable] at hv
    simp only [chars, List.length_append, List.length_cons, List.length_nil] at hfuel
    have hitems := readItems_chars v vs hv fuel rest (by omega)
    rw [allWritable, Bool.and_eq_true] at hv
    obtain ⟨c, cs, hcs, hspace, hne⟩ := exists_chars_eq_cons hv.1
    simp only [chars, itemsChars_cons, hcs, List.cons_append, List.append_assoc,
      List.nil_append] at hitems ⊢
    rw [readValue_array fuel _ hspace hne, hitems]
  | object [], _, fuel + 1, rest, _, _ => by
    simp [chars, membersChars, readValue, dropSpace, isSpace]
  | object ((some key, v) :: ms), hv, fuel + 1, rest, hfuel, _ => by
    rw [isWritable] at hv
    simp only [chars, List.length_append, List.length_cons, List.length_nil] at hfuel
    have hmembers := readMembers_chars key v ms hv fuel rest (by omega)
    simp only [chars, membersChars_cons, List.cons_append, List.append_assoc,
      List.nil_append] at hmembers ⊢
    rw [readValue_object, hmembers]
  | object ((none, _) :: _), hv, _ + 1, _, _, _ => by simp [isWritable, allMembersWritable] at hv

/-- Items are taken off up to the bracket that closes them. -/
theorem readItems_chars : (v : Json) → (vs : List Json) → allWritable (v :: vs) → (fuel : Nat) →
    (rest : List Char) → (itemsChars (v :: vs)).length + 1 < fuel →
    readItems fuel (itemsChars (v :: vs) ++ ']' :: rest) = (v :: vs, rest)
  | _, _, _, 0, _, hfuel => absurd hfuel (Nat.not_lt_zero _)
  | v, [], hvs, fuel + 1, rest, hfuel => by
    simp only [allWritable, Bool.and_true] at hvs
    rw [itemsChars] at hfuel ⊢
    exact readItems_last (readValue_chars v hvs fuel _ (by omega) (by simp))
  | v, w :: vs, hvs, fuel + 1, rest, hfuel => by
    rw [allWritable, Bool.and_eq_true] at hvs
    simp only [itemsChars, List.length_append, List.length_cons] at hfuel
    have hv := readValue_chars v hvs.1 fuel (',' :: (itemsChars (w :: vs) ++ ']' :: rest))
      (by omega) (by simp)
    have hitems := readItems_chars w vs hvs.2 fuel rest (by omega)
    rw [itemsChars, List.append_assoc, List.cons_append, readItems_more hv, hitems]
    simp

/-- Members are taken off up to the brace that closes them. -/
theorem readMembers_chars : (key : String) → (v : Json) → (ms : List (Option String × Json)) →
    allMembersWritable ((some key, v) :: ms) → (fuel : Nat) → (rest : List Char) →
    (membersChars ((some key, v) :: ms)).length + 1 < fuel →
    readMembers fuel (membersChars ((some key, v) :: ms) ++ '\x7d' :: rest) =
      ((some key, v) :: ms, rest)
  | _, _, _, _, 0, _, hfuel => absurd hfuel (Nat.not_lt_zero _)
  | key, v, [], hms, fuel + 1, rest, hfuel => by
    simp only [allMembersWritable, Option.isSome_some, Bool.true_and, Bool.and_true] at hms
    simp only [membersChars, Option.getD_some, List.length_append, List.length_cons] at hfuel
    have hv := readValue_chars v hms fuel ('\x7d' :: rest) (by omega) (by simp)
    simpa [membersChars] using readMembers_last key hv
  | key, v, (some key', w) :: ms, hms, fuel + 1, rest, hfuel => by
    rw [allMembersWritable, Bool.and_eq_true] at hms
    simp only [Option.isSome_some, Bool.true_and] at hms
    simp only [membersChars, Option.getD_some, List.length_append, List.length_cons] at hfuel
    have hv := readValue_chars v hms.1 fuel
      (',' :: (membersChars ((some key', w) :: ms) ++ '\x7d' :: rest)) (by omega) (by simp)
    have hmembers := readMembers_chars key' w ms hms.2 fuel rest (by omega)
    have hmore := readMembers_more key hv
    rw [hmembers] at hmore
    simpa [membersChars] using hmore
  | key, v, (none, w) :: ms, hms, _ + 1, _, _ => by simp [allMembersWritable] at hms
end

/-! ## 4. Documents -/

/-- **What is written is read again**, to its end. -/
theorem read_render {v : Json} (h : v.isWritable) : read v.render = (v, []) := by
  have hread := readValue_chars v h (v.chars.length + 1) [] (by omega) closes_nil
  simpa [read, render] using hread

end Tabula.Json
