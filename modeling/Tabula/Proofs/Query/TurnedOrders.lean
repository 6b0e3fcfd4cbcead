/-
# Orders that callers write

An order that a caller hands in as text is turned around word by word: what is a direction becomes
the opposite one, all else stays.  The keys of an order are separated by commas and their words by
blanks, and neither is lost in the change (`orderWords_turn`).  So a key whose direction is written
is turned around, and a key whose direction is left to be the usual one stays as it is.

* `readOrder?_resolveOrder_true`: the keys of an order that is turned around, as they are read.
* `reverses_resolveOrder_iff`: which orders are reversed key by key.
* `not_reverses_age`: one key, without a direction, for which the last rows are the first ones.
-/
import Tabula.Proofs.Fallible
import Tabula.Proofs.Query.OrderText

namespace Tabula

open Tabula.Text

namespace Text.Words

variable {sep : Char → Bool} {w : List Char}

/-- What is no separator belongs to the first word. -/
theorem ofChars_append_left (h : ∀ c ∈ w, sep c = false) (cs : List Char) :
    ofChars sep (w ++ cs) = ⟨w ++ (ofChars sep cs).first, (ofChars sep cs).rest⟩ := by
  induction w with
  | nil => rfl
  | cons c w ih =>
    obtain ⟨hc, hw⟩ := List.forall_mem_cons.mp h
    simp [ofChars, hc, ih hw]

end Text.Words

namespace Query

/-! ## 1. The words of an order -/

/-- A word, unless it is empty. -/
def asWord (w : List Char) : List (List Char) := [w].filter (· ≠ [])

/-- The words of one term. -/
def termWords (cs : List Char) : List (List Char) :=
  (Words.ofChars isBlank cs).toList.filter (· ≠ [])

/-- The words of each term of an order. -/
def orderWords (cs : List Char) : List (List (List Char)) :=
  (Words.ofChars (· == ',') cs).toList.map termWords

variable {w cs : List Char} {c : Char}

theorem not_comma_of_isBlank (h : isBlank c = true) : (c == ',') = false := by
  by_contra hcomma
  rw [Bool.not_eq_false, beq_iff_eq] at hcomma
  exact absurd (hcomma ▸ h) (by decide)

theorem endsWord_cases (h : endsWord c = true) : c = ',' ∨ isBlank c = true := by
  rwa [endsWord, Bool.or_eq_true, beq_iff_eq] at h

/-- **A text is a word, or a word, a separator and a text.** -/
theorem word_induction {P : List Char → Prop} (hword : ∀ w, WordChars w → P w)
    (hcons : ∀ w c cs, WordChars w → endsWord c = true → P cs → P (w ++ c :: cs))
    (cs : List Char) : P cs := by
  -- The induction is on what comes after `w`, the part of the word that has been read so far.
  suffices h : ∀ w, WordChars w → P (w ++ cs) from h [] (by simp [WordChars])
  induction cs with
  | nil =>
    intro w hw
    rw [List.append_nil]
    exact hword w hw
  | cons c cs ih =>
    intro w hw
    by_cases hc : endsWord c = true
    · exact hcons w c cs hw hc (ih [] (by simp [WordChars]))
    · have hw' : WordChars (w ++ [c]) := by
        intro d hd
        rcases List.mem_append.mp hd with hd | hd
        · exact hw d hd
        · rw [List.mem_singleton.mp hd]
          exact Bool.not_eq_true _ ▸ hc
      have hP := ih (w ++ [c]) hw'
      rwa [List.append_assoc, List.singleton_append] at hP

theorem termWords_word (h : WordChars w) : termWords w = asWord w := by
  rw [termWords, Words.ofChars_of_forall h.not_blank]
  rfl

theorem termWords_append (h : WordChars w) (hc : isBlank c = true) :
    termWords (w ++ c :: cs) = asWord w ++ termWords cs := by
  rw [termWords, Words.toList_ofChars_append h.not_blank hc, ← List.singleton_append,
    List.filter_append]
  rfl

theorem orderWords_word (h : WordChars w) : orderWords w = [asWord w] := by
  rw [orderWords, Words.ofChars_of_forall h.not_comma, ← termWords_word h]
  rfl

/-- A comma ends a term. -/
theorem orderWords_comma (h : WordChars w) :
    orderWords (w ++ ',' :: cs) = asWord w :: orderWords cs := by
  rw [orderWords, Words.toList_ofChars_append h.not_comma (by decide), List.map_cons,
    termWords_word h]
  rfl

/-- A blank ends a word of the first term. -/
theorem orderWords_blank (h : WordChars w) (hc : isBlank c = true) :
    orderWords (w ++ c :: cs) = (orderWords cs).modifyHead (asWord w ++ ·) := by
  have hcomma : ∀ d ∈ w ++ [c], (d == ',') = false := by
    intro d hd
    rcases List.mem_append.mp hd with hd | hd
    · exact h.not_comma d hd
    · rw [List.mem_singleton.mp hd]
      exact not_comma_of_isBlank hc
  have hsplit : w ++ c :: cs = (w ++ [c]) ++ cs := by simp
  rw [orderWords, hsplit, Words.ofChars_append_left hcomma, Words.toList, List.map_cons,
    List.append_assoc, List.singleton_append, termWords_append h hc]
  rfl

/-! ## 2. Words that are turned around -/

theorem ofWord?_opposite {d : Direction} (h : Direction.ofWord? w = some d) :
    invertWord w = d.opposite.text.toList := by
  simp [invertWord, h]

/-- A word is no other word after the change only if it is no direction. -/
theorem invertWord_eq_self_iff : invertWord w = w ↔ Direction.ofWord? w = none := by
  constructor
  · intro h
    cases hword : Direction.ofWord? w with
    | none => rfl
    | some d =>
      have hopposite : some d = some d.opposite := by
        rw [← hword, ← ofWord?_text d.opposite, ← ofWord?_opposite hword, h]
      cases d <;> cases hopposite
  · intro h
    simp [invertWord, h]

theorem WordChars.invert (h : WordChars w) : WordChars (invertWord w) := by
  cases hword : Direction.ofWord? w with
  | none => rwa [invertWord_eq_self_iff.mpr hword]
  | some d =>
    rw [ofWord?_opposite hword]
    exact isClean_directionText _

theorem map_asWord (w : List Char) : (asWord w).map invertWord = asWord (invertWord w) := by
  cases hword : Direction.ofWord? w with
  | none =>
    rw [invertWord_eq_self_iff.mpr hword]
    by_cases hw : w = []
    · simp [asWord, hw]
    · simp [asWord, hw, invertWord_eq_self_iff.mpr hword]
  | some d =>
    have hw : w ≠ [] := by
      have hnone : Direction.ofWord? [] = none := by decide
      rintro rfl
      rw [hnone] at hword
      cases hword
    have hne : d.opposite.text.toList ≠ [] := by cases d <;> decide
    simp [asWord, hw, ofWord?_opposite hword, hne]

/-- **Turning an order around changes its words one by one** and keeps them where they are. -/
theorem orderWords_turn (cs : List Char) :
    orderWords (turn cs) = (orderWords cs).map (List.map invertWord) := by
  induction cs using word_induction with
  | hword w hw =>
    rw [turn_word hw, orderWords_word hw, orderWords_word hw.invert, List.map_singleton,
      map_asWord]
  | hcons w c cs hw hc ih =>
    rw [turn_append hw hc]
    rcases endsWord_cases hc with rfl | hblank
    · rw [orderWords_comma hw, orderWords_comma hw.invert, ih, List.map_cons, map_asWord]
    · rw [orderWords_blank hw hblank, orderWords_blank hw.invert hblank, ih]
      cases orderWords cs with
      | nil => rfl
      | cons term terms => simp [map_asWord]

/-! ## 3. Blanks at the ends -/

theorem orderWords_cons_blank (hc : isBlank c = true) : orderWords (c :: cs) = orderWords cs := by
  have h : orderWords ([] ++ c :: cs) = (orderWords cs).modifyHead (asWord [] ++ ·) :=
    orderWords_blank (by simp [WordChars]) hc
  rw [List.nil_append] at h
  rw [h]
  cases orderWords cs <;> rfl

theorem orderWords_append_blank (hc : isBlank c = true) (cs : List Char) :
    orderWords (cs ++ [c]) = orderWords cs := by
  induction cs using word_induction with
  | hword w hw =>
    rw [orderWords_blank hw hc, orderWords_word hw]
    simp [orderWords, termWords, Words.ofChars, Words.toList]
  | hcons w d cs hw hd ih =>
    rw [List.append_assoc, List.cons_append]
    rcases endsWord_cases hd with rfl | hblank
    · rw [orderWords_comma hw, orderWords_comma hw, ih]
    · rw [orderWords_blank hw hblank, orderWords_blank hw hblank, ih]

theorem orderWords_dropBlanks (cs : List Char) : orderWords (dropBlanks cs) = orderWords cs := by
  induction cs with
  | nil => rfl
  | cons c cs ih =>
    cases hc : isBlank c with
    | true => rw [orderWords_cons_blank hc, ← ih, dropBlanks, List.dropWhile_cons_of_pos hc,
        dropBlanks]
    | false => rw [dropBlanks, List.dropWhile_cons_of_neg (by simp [hc])]

theorem orderWords_dropBlanks_reverse (cs : List Char) :
    orderWords (dropBlanks cs).reverse = orderWords cs.reverse := by
  induction cs with
  | nil => rfl
  | cons c cs ih =>
    cases hc : isBlank c with
    | true => rw [List.reverse_cons, orderWords_append_blank hc, ← ih, dropBlanks,
        List.dropWhile_cons_of_pos hc, dropBlanks]
    | false => rw [dropBlanks, List.dropWhile_cons_of_neg (by simp [hc])]

/-- Blanks at the ends of an order are no part of it. -/
theorem orderWords_trim (text : String) :
    orderWords (trim text).toList = orderWords text.toList := by
  rw [trim, String.toList_ofList, orderWords_dropBlanks_reverse, List.reverse_reverse,
    orderWords_dropBlanks]

/-! ## 4. Keys as they are written -/

/-- A key of an order, with its direction if that is written. -/
structure WrittenKey where
  column : String
  direction? : Option Direction
deriving DecidableEq, Repr

namespace WrittenKey

/-- A key as it is read: the usual direction is the ascending one. -/
def read (k : WrittenKey) : String × Direction := (k.column, k.direction?.getD .asc)

/-- The key after its words have been turned around. -/
def turned (k : WrittenKey) : WrittenKey :=
  ⟨String.ofList (invertWord k.column.toList), k.direction?.map .opposite⟩

end WrittenKey

/-- The key that the words of a term make up. -/
def writtenKey? : List (List Char) → Option WrittenKey
  | [column] => some ⟨String.ofList column, none⟩
  | [column, word] => (Direction.ofWord? word).map fun d => ⟨String.ofList column, some d⟩
  | _ => none

/-- The keys of an order as a caller writes it: terms between commas, each a column, and a direction
in upper or lower case unless it is the usual one. -/
def writtenKeys? (text : String) : Option (List WrittenKey) :=
  (orderWords text.toList).mapM writtenKey?

theorem readTerm?_eq (cs : List Char) :
    readTerm? cs = (writtenKey? (termWords cs)).map WrittenKey.read := by
  rw [readTerm?, termWords]
  generalize (Words.ofChars isBlank cs).toList.filter (· ≠ []) = ws
  rcases ws with _ | ⟨column, _ | ⟨word, _ | ⟨_, _⟩⟩⟩
  · rfl
  · rfl
  · simp [writtenKey?, WrittenKey.read, Function.comp_def]
  · rfl

/-- An order is read as its keys are written. -/
theorem readOrder?_of_written {text : String} {keys : List WrittenKey}
    (h : writtenKeys? text = some keys) : readOrder? text = some (keys.map WrittenKey.read) := by
  rw [writtenKeys?, orderWords, mapM_eq_some_iff, List.forall₂_map_left_iff] at h
  rw [readOrder?, readTerms?, mapM_eq_some_iff, List.forall₂_map_right_iff]
  refine h.imp ?_
  intro cs k hk
  rw [readTerm?_eq, hk, Option.map_some]

theorem writtenKey?_invert {ws : List (List Char)} {k : WrittenKey} (h : writtenKey? ws = some k) :
    writtenKey? (ws.map invertWord) = some k.turned := by
  unfold writtenKey? at h
  split at h
  case h_1 column =>
    obtain rfl := Option.some.inj h
    simp [writtenKey?, WrittenKey.turned]
  case h_2 column word =>
    obtain ⟨d, hd, rfl⟩ := Option.map_eq_some_iff.mp h
    simp [writtenKey?, WrittenKey.turned, ofWord?_opposite hd, ofWord?_text]
  case h_3 => exact absurd h (by simp)

/-- **The keys of an order that is turned around.** -/
theorem writtenKeys?_invert {text : String} {keys : List WrittenKey}
    (h : writtenKeys? text = some keys) :
    writtenKeys? (invertOrderText text) = some (keys.map WrittenKey.turned) := by
  have hwords : orderWords (invertOrderText text).toList =
      (orderWords text.toList).map (List.map invertWord) := by
    rw [← orderWords_turn, turn, invertOrderText, String.toList_ofList]
  rw [writtenKeys?, mapM_eq_some_iff] at h
  rw [writtenKeys?, hwords, mapM_eq_some_iff, List.forall₂_map_left_iff,
    List.forall₂_map_right_iff]
  exact h.imp fun _ _ hk => writtenKey?_invert hk

/-! ## 5. The last rows under an order -/

variable {table text : String} {keys : List WrittenKey}

theorem writtenKeys?_trim : writtenKeys? (trim text) = writtenKeys? text := by
  rw [writtenKeys?, orderWords_trim, writtenKeys?]

theorem resolveOrder_of_written (h : writtenKeys? text = some keys) (last : Bool) :
    resolveOrder table text last = if last then invertOrderText (trim text) else trim text := by
  have hne : trim text ≠ "" := by
    intro hempty
    have hnone : writtenKeys? "" = none := by decide
    rw [← writtenKeys?_trim, hempty, hnone] at h
    cases h
  rw [resolveOrder, if_neg hne]

theorem readOrder?_resolveOrder_false (h : writtenKeys? text = some keys) :
    readOrder? (resolveOrder table text false) = some (keys.map WrittenKey.read) := by
  rw [resolveOrder_of_written h]
  exact readOrder?_of_written (writtenKeys?_trim.trans h)

theorem readOrder?_resolveOrder_true (h : writtenKeys? text = some keys) :
    readOrder? (resolveOrder table text true) = some (keys.map fun k => k.turned.read) := by
  rw [resolveOrder_of_written h]
  have hturned := readOrder?_of_written (writtenKeys?_invert (writtenKeys?_trim.trans h))
  rwa [List.map_map] at hturned

/-- **Which keys are turned around**: those with a direction.  The column must be none itself. -/
theorem WrittenKey.read_turned_iff (k : WrittenKey) :
    k.turned.read = (k.column, (k.direction?.getD .asc).opposite) ↔
      k.direction?.isSome ∧ Direction.ofKeyword? k.column = none := by
  have hcolumn : String.ofList (invertWord k.column.toList) = k.column ↔
      Direction.ofKeyword? k.column = none := by
    rw [Direction.ofKeyword?, ← invertWord_eq_self_iff, ← String.toList_inj, String.toList_ofList]
  have hdirection : (k.direction?.map Direction.opposite).getD .asc =
      (k.direction?.getD .asc).opposite ↔ k.direction?.isSome := by
    cases k.direction? <;> simp [Direction.opposite]
  rw [read, turned, Prod.mk.injEq, hcolumn, hdirection, and_comm]

/-- One order lists the keys of another one in opposite directions. -/
def Reverses (first last : String) : Prop :=
  ∃ keys, readOrder? first = some keys ∧
    readOrder? last = some (keys.map fun k => (k.1, k.2.opposite))

/-- **Which orders are reversed**, to get at the last rows: those in which each key is written with
a direction, and no column has the name of one. -/
theorem reverses_resolveOrder_iff (h : writtenKeys? text = some keys) :
    Reverses (resolveOrder table text false) (resolveOrder table text true) ↔
      ∀ k ∈ keys, k.direction?.isSome ∧ Direction.ofKeyword? k.column = none := by
  have hkeys : Reverses (resolveOrder table text false) (resolveOrder table text true) ↔
      keys.map (fun k => k.turned.read) =
        keys.map fun k => (k.column, (k.direction?.getD .asc).opposite) := by
    rw [Reverses, readOrder?_resolveOrder_false h, readOrder?_resolveOrder_true h]
    simp [WrittenKey.read, Function.comp_def]
  rw [hkeys, List.map_inj_left]
  exact forall₂_congr fun k _ => k.read_turned_iff

theorem reverses_nameAge :
    Reverses (resolveOrder "t" "  t.name desc,\tt.age  Asc " false)
      (resolveOrder "t" "  t.name desc,\tt.age  Asc " true) := by
  have hkeys : writtenKeys? "  t.name desc,\tt.age  Asc " =
      some [⟨"t.name", some .desc⟩, ⟨"t.age", some .asc⟩] := by decide
  exact (reverses_resolveOrder_iff hkeys).mpr (by decide)

/-- **A key without a direction stays**: the last rows under it are the first ones. -/
theorem not_reverses_age : writtenKeys? "t.age" = some [⟨"t.age", none⟩] ∧
    resolveOrder "t" "t.age" true = resolveOrder "t" "t.age" false ∧
    ¬Reverses (resolveOrder "t" "t.age" false) (resolveOrder "t" "t.age" true) := by
  refine ⟨by decide, by decide, ?_⟩
  rintro ⟨keys, hfirst, hlast⟩
  have hread : ∀ last, readOrder? (resolveOrder "t" "t.age" last) = some [("t.age", .asc)] := by
    decide
  obtain rfl := Option.some.inj ((hread false).symm.trans hfirst)
  exact absurd ((hread true).symm.trans hlast) (by decide)

end Query
end Tabula
