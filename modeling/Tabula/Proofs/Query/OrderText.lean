/-
# Orders as the engine reads them

An order reaches the engine as text, and turning it around is a change of that text.  `readOrder?`
reads an order as the engine does, term by term.  The names in an order must be free of blanks and
commas, since nothing quotes them; then the text of an order is read as its keys, and the text that
is turned around as the same keys in opposite directions (`readOrder?_resolveOrder`).

Everything about words follows from what `Words.ofChars` does at a separator
(`Words.ofChars_append`).
-/
import Tabula.Query.Order

namespace Tabula

open Tabula.Text

/-! ## 1. Words at a separator -/

namespace Text.Words

variable {sep : Char → Bool} {w cs : List Char} {c : Char}

/-- All words, in order. -/
def toList (ws : Words) : List (List Char) := ws.first :: ws.rest.map (·.2)

theorem ofChars_of_forall (h : ∀ c ∈ w, sep c = false) : ofChars sep w = ⟨w, []⟩ := by
  induction w with
  | nil => rfl
  | cons c w ih =>
    obtain ⟨hc, hw⟩ := List.forall_mem_cons.mp h
    simp [ofChars, hc, ih hw]

/-- **A text is cut at each separator.** -/
theorem ofChars_append_cons (hc : sep c = true) (ds : List Char) :
    ofChars sep (ds ++ c :: cs) = ⟨(ofChars sep ds).first,
      (ofChars sep ds).rest ++ (c, (ofChars sep cs).first) :: (ofChars sep cs).rest⟩ := by
  induction ds with
  | nil => simp [ofChars, hc]
  | cons d ds ih =>
    simp only [List.cons_append, ofChars, ih]
    split <;> simp

/-- **A separator ends the first word.** -/
theorem ofChars_append (h : ∀ c ∈ w, sep c = false) (hc : sep c = true) :
    ofChars sep (w ++ c :: cs) = ⟨w, (c, (ofChars sep cs).first) :: (ofChars sep cs).rest⟩ := by
  rw [ofChars_append_cons hc, ofChars_of_forall h]
  rfl

theorem toList_ofChars_append (h : ∀ c ∈ w, sep c = false) (hc : sep c = true) :
    (ofChars sep (w ++ c :: cs)).toList = w :: (ofChars sep cs).toList := by
  rw [ofChars_append h hc]
  rfl

end Text.Words

namespace Query

/-! ## 2. Words and clean names -/

/-- Characters that make up one word. -/
def WordChars (w : List Char) : Prop := ∀ c ∈ w, endsWord c = false

theorem WordChars.not_blank {w : List Char} (h : WordChars w) : ∀ c ∈ w, isBlank c = false := by
  intro c hc
  exact (Bool.or_eq_false_iff.mp (h c hc)).2

theorem WordChars.not_comma {w : List Char} (h : WordChars w) : ∀ c ∈ w, (c == ',') = false := by
  intro c hc
  exact (Bool.or_eq_false_iff.mp (h c hc)).1

/-- A name that stays one word in an order. -/
def IsClean (name : String) : Prop := ∀ c ∈ name.toList, endsWord c = false

instance (name : String) : Decidable (IsClean name) :=
  List.decidableBAll (fun c => endsWord c = false) name.toList

/-- A column whose two names are clean. -/
def ColumnRef.IsClean (c : ColumnRef) : Prop := Query.IsClean c.table ∧ Query.IsClean c.name

instance (c : ColumnRef) : Decidable c.IsClean := inferInstanceAs (Decidable (_ ∧ _))

theorem toList_columnText (c : ColumnRef) :
    c.text.toList = c.table.toList ++ '.' :: c.name.toList := by
  simp [ColumnRef.text]

theorem ColumnRef.IsClean.text {c : ColumnRef} (h : c.IsClean) : Query.IsClean c.text := by
  intro x hx
  rw [toList_columnText, List.mem_append, List.mem_cons] at hx
  rcases hx with hx | rfl | hx
  · exact h.1 x hx
  · decide
  · exact h.2 x hx

/-- A column is no keyword, because of its dot. -/
theorem upper_columnText_ne {keyword : List Char} (h : '.' ∉ keyword) (c : ColumnRef) :
    c.text.toList.map Char.toUpper ≠ keyword := by
  rintro rfl
  refine h ?_
  rw [toList_columnText, List.map_append, List.map_cons]
  exact List.mem_append_right _ List.mem_cons_self

theorem ofWord?_columnText (c : ColumnRef) : Direction.ofWord? c.text.toList = none := by
  have hasc := upper_columnText_ne (by decide : '.' ∉ Direction.asc.text.toList) c
  have hdesc := upper_columnText_ne (by decide : '.' ∉ Direction.desc.text.toList) c
  simp [Direction.ofWord?, hasc, hdesc]

theorem ofWord?_text (d : Direction) : Direction.ofWord? d.text.toList = some d := by
  cases d <;> decide

theorem isClean_directionText (d : Direction) : IsClean d.text := by cases d <;> decide

theorem toList_keyText (k : SortKey) :
    k.text.toList = k.column.text.toList ++ ' ' :: k.direction.text.toList := by
  simp [SortKey.text]

/-- The text of an order, key by key. -/
theorem toList_orderText_cons (k k' : SortKey) (ks : List SortKey) :
    (Order.mk (k :: k' :: ks)).text.toList =
      k.text.toList ++ ',' :: ' ' :: (Order.mk (k' :: ks)).text.toList := by
  simp [Order.text, String.intercalate_cons_cons]

theorem orderText_singleton (k : SortKey) : (Order.mk [k]).text = k.text := by
  simp [Order.text]

/-! ## 3. Turning an order around -/

/-- The key with the opposite direction. -/
def SortKey.flip (k : SortKey) : SortKey := ⟨k.column, k.direction.opposite⟩

/-- The order with all directions turned around. -/
def Order.flip (o : Order) : Order := ⟨o.keys.map SortKey.flip⟩

/-- The characters of an order that is turned around. -/
def turn (cs : List Char) : List Char := ((Words.ofChars endsWord cs).map invertWord).chars

theorem turn_word {w : List Char} (h : ∀ c ∈ w, endsWord c = false) : turn w = invertWord w := by
  simp [turn, Words.ofChars_of_forall h, Words.map, Words.chars]

theorem turn_append {w cs : List Char} {c : Char} (h : ∀ c ∈ w, endsWord c = false)
    (hc : endsWord c = true) : turn (w ++ c :: cs) = invertWord w ++ c :: turn cs := by
  simp [turn, Words.ofChars_append h hc, Words.map, Words.chars]

theorem invertWord_columnText (c : ColumnRef) : invertWord c.text.toList = c.text.toList := by
  simp [invertWord, ofWord?_columnText]

theorem invertWord_directionText (d : Direction) :
    invertWord d.text.toList = d.opposite.text.toList := by
  simp [invertWord, ofWord?_text]

theorem turn_keyText {k : SortKey} (h : k.column.IsClean) :
    turn k.text.toList = k.flip.text.toList := by
  rw [toList_keyText, turn_append h.text (by decide), turn_word (isClean_directionText _),
    invertWord_columnText, invertWord_directionText, toList_keyText]
  rfl

/-- **Turning the text around turns the order around.** -/
theorem invertOrderText_text {o : Order} (h : ∀ k ∈ o.keys, k.column.IsClean) :
    invertOrderText o.text = o.flip.text := by
  suffices hturn : turn o.text.toList = o.flip.text.toList by
    rw [← String.ofList_toList (s := o.flip.text), ← hturn]
    rfl
  obtain ⟨ks⟩ := o
  induction ks with
  | nil => rfl
  | cons k ks ih =>
    obtain ⟨hk, hks⟩ := List.forall_mem_cons.mp h
    cases ks with
    | nil =>
      rw [orderText_singleton, turn_keyText hk]
      exact congrArg String.toList (orderText_singleton _).symm
    | cons k' ks =>
      have hflip : (Order.mk (k :: k' :: ks)).flip.text.toList =
          k.flip.text.toList ++ ',' :: ' ' :: (Order.mk (k' :: ks)).flip.text.toList :=
        toList_orderText_cons _ _ _
      have hempty : turn (' ' :: (Order.mk (k' :: ks)).text.toList) =
          ' ' :: turn (Order.mk (k' :: ks)).text.toList :=
        turn_append (w := []) (by simp) (by decide)
      rw [hflip, toList_orderText_cons, toList_keyText, List.append_assoc, List.cons_append,
        turn_append hk.text (by decide), turn_append (isClean_directionText _) (by decide),
        hempty, ih hks, invertWord_columnText, invertWord_directionText, toList_keyText,
        List.append_assoc]
      rfl

/-! ## 4. Reading an order -/

/-- Reads one term of an order: a column, and a direction unless it is the usual one. -/
def readTerm? (cs : List Char) : Option (String × Direction) :=
  match (Words.ofChars isBlank cs).toList.filter (· ≠ []) with
  | [column] => some (String.ofList column, .asc)
  | [column, word] => (Direction.ofWord? word).map fun d => (String.ofList column, d)
  | _ => none

/-- Reads the terms between commas. -/
def readTerms? (cs : List Char) : Option (List (String × Direction)) :=
  (Words.ofChars (· == ',') cs).toList.mapM readTerm?

/-- Reads an order. -/
def readOrder? (text : String) : Option (List (String × Direction)) := readTerms? text.toList

/-- Blanks before a term do not matter. -/
theorem readTerm?_cons_blank (cs : List Char) : readTerm? (' ' :: cs) = readTerm? cs := by
  have hwords : (Words.ofChars isBlank (' ' :: cs)).toList =
      [] :: (Words.ofChars isBlank cs).toList :=
    Words.toList_ofChars_append (w := []) (by simp) (by decide)
  simp [readTerm?, hwords]

theorem readTerms?_cons_blank (cs : List Char) : readTerms? (' ' :: cs) = readTerms? cs := by
  have hwords : Words.ofChars (· == ',') (' ' :: cs) =
      ⟨' ' :: (Words.ofChars (· == ',') cs).first, (Words.ofChars (· == ',') cs).rest⟩ := by
    simp [Words.ofChars]
  simp [readTerms?, hwords, Words.toList, readTerm?_cons_blank]

theorem readTerms?_append {w cs : List Char} (h : ∀ c ∈ w, (c == ',') = false) :
    readTerms? (w ++ ',' :: cs) =
      (readTerm? w).bind fun term => (readTerms? cs).map fun terms => term :: terms := by
  have hwords : (Words.ofChars (· == ',') (w ++ ',' :: cs)).toList =
      w :: (Words.ofChars (· == ',') cs).toList :=
    Words.toList_ofChars_append h (by decide)
  rw [readTerms?, hwords, List.mapM_cons]
  cases readTerm? w with
  | none => rfl
  | some term =>
    simp only [readTerms?, Option.bind_some]
    cases (Words.ofChars (· == ',') cs).toList.mapM readTerm? <;> rfl

theorem IsClean.not_blank {name : String} (h : IsClean name) :
    ∀ c ∈ name.toList, isBlank c = false :=
  WordChars.not_blank h

theorem IsClean.not_comma {name : String} (h : IsClean name) :
    ∀ c ∈ name.toList, (c == ',') = false :=
  WordChars.not_comma h

theorem readTerm?_keyText {k : SortKey} (h : k.column.IsClean) :
    readTerm? k.text.toList = some (k.column.text, k.direction) := by
  have hcolumn : k.column.text.toList ≠ [] := by simp [toList_columnText]
  have hdirection : k.direction.text.toList ≠ [] := by cases k.direction <;> decide
  have hwords : (Words.ofChars isBlank k.text.toList).toList =
      [k.column.text.toList, k.direction.text.toList] := by
    rw [toList_keyText, Words.toList_ofChars_append h.text.not_blank (by decide),
      Words.ofChars_of_forall (isClean_directionText _).not_blank]
    rfl
  simp [readTerm?, hwords, hcolumn, hdirection, ofWord?_text]

theorem not_comma_keyText {k : SortKey} (h : k.column.IsClean) :
    ∀ c ∈ k.text.toList, (c == ',') = false := by
  intro c hc
  rw [toList_keyText, List.mem_append, List.mem_cons] at hc
  rcases hc with hc | rfl | hc
  · exact h.text.not_comma c hc
  · decide
  · exact (isClean_directionText _).not_comma c hc

/-- **What is written is read**: the keys, as texts. -/
theorem readOrder?_text {o : Order} (h : ∀ k ∈ o.keys, k.column.IsClean) (hne : o.keys ≠ []) :
    readOrder? o.text = some (o.keys.map fun k => (k.column.text, k.direction)) := by
  obtain ⟨ks⟩ := o
  induction ks with
  | nil => exact absurd rfl hne
  | cons k ks ih =>
    obtain ⟨hk, hks⟩ := List.forall_mem_cons.mp h
    cases ks with
    | nil =>
      have hwords : Words.ofChars (· == ',') k.text.toList = ⟨k.text.toList, []⟩ :=
        Words.ofChars_of_forall (not_comma_keyText hk)
      simp [readOrder?, readTerms?, orderText_singleton, hwords, Words.toList,
        readTerm?_keyText hk]
    | cons k' ks =>
      have hrest := ih hks (by simp)
      rw [readOrder?] at hrest ⊢
      rw [toList_orderText_cons, readTerms?_append (not_comma_keyText hk), readTerm?_keyText hk,
        readTerms?_cons_blank, hrest]
      rfl

/-! ## 5. The order of a query -/

/-- The keys that an order sorts by.  Without any, rows come in the order of their identifiers. -/
def Order.sortKeys (o : Order) (table : String) : List SortKey :=
  if o.keys = [] then [⟨rowid table, .asc⟩] else o.keys

/-- Keys as they are read, turned around or not. -/
def readKeys (flipped : Bool) (ks : List SortKey) : List (String × Direction) :=
  ks.map fun k => (k.column.text, if flipped then k.direction.opposite else k.direction)

theorem trim_eq_self {s : String} (hhead : ∀ c cs, s.toList = c :: cs → isBlank c = false)
    (hlast : ∀ cs c, s.toList = cs ++ [c] → isBlank c = false) : trim s = s := by
  have hdrop : dropBlanks s.toList = s.toList := by
    cases hs : s.toList with
    | nil => rfl
    | cons c cs => simp [dropBlanks, hhead c cs hs]
  have hdrop' : dropBlanks s.toList.reverse = s.toList.reverse := by
    cases hs : s.toList.reverse with
    | nil => rfl
    | cons c cs =>
      have hcs : s.toList = cs.reverse ++ [c] := by
        rw [← List.reverse_reverse s.toList, hs, List.reverse_cons]
      simp [dropBlanks, hlast _ _ hcs]
  rw [trim, hdrop, hdrop', List.reverse_reverse, String.ofList_toList]

/-- An order begins with a column. -/
theorem orderText_head (k : SortKey) (ks : List SortKey) :
    ∃ rest, (Order.mk (k :: ks)).text.toList = k.column.text.toList ++ ' ' :: rest := by
  cases ks with
  | nil => exact ⟨_, by rw [orderText_singleton, toList_keyText]⟩
  | cons k' ks =>
    rw [toList_orderText_cons, toList_keyText, List.append_assoc, List.cons_append]
    exact ⟨_, rfl⟩

/-- An order ends with the last letter that both directions have. -/
theorem orderText_last (k : SortKey) (ks : List SortKey) :
    ∃ front, (Order.mk (k :: ks)).text.toList = front ++ ['C'] := by
  induction ks generalizing k with
  | nil =>
    have hdirection : ∃ front, k.direction.text.toList = front ++ ['C'] := by
      cases k.direction with
      | asc => exact ⟨['A', 'S'], by decide⟩
      | desc => exact ⟨['D', 'E', 'S'], by decide⟩
    obtain ⟨front, hfront⟩ := hdirection
    refine ⟨k.column.text.toList ++ ' ' :: front, ?_⟩
    rw [orderText_singleton, toList_keyText, hfront, List.append_assoc, List.cons_append]
  | cons k' ks ih =>
    obtain ⟨front, hfront⟩ := ih k'
    refine ⟨k.text.toList ++ ',' :: ' ' :: front, ?_⟩
    rw [toList_orderText_cons, hfront, List.append_assoc, List.cons_append, List.cons_append]

/-- So blanks at its ends do not matter. -/
theorem trim_orderText {o : Order} (h : ∀ k ∈ o.keys, k.column.IsClean) :
    trim o.text = o.text := by
  obtain ⟨ks⟩ := o
  cases ks with
  | nil => decide
  | cons k ks =>
    refine trim_eq_self (fun c cs hcs => ?_) fun cs c hcs => ?_
    · obtain ⟨rest, hrest⟩ := orderText_head k ks
      have hclean := (h k List.mem_cons_self).text.not_blank
      have hcolumn : k.column.text.toList ≠ [] := by simp [toList_columnText]
      obtain ⟨d, ds, hds⟩ := List.exists_cons_of_ne_nil hcolumn
      rw [hrest, hds, List.cons_append] at hcs
      rw [← (List.cons.inj hcs).1]
      exact hclean d (hds ▸ List.mem_cons_self)
    · obtain ⟨front, hfront⟩ := orderText_last k ks
      rw [hfront] at hcs
      have hc : ['C'] = [c] := List.append_inj_right' hcs rfl
      rw [← List.singleton_inj.mp hc]
      decide

theorem orderText_ne_empty {o : Order} (hne : o.keys ≠ []) : o.text ≠ "" := by
  obtain ⟨ks⟩ := o
  cases ks with
  | nil => exact absurd rfl hne
  | cons k ks =>
    obtain ⟨front, hfront⟩ := orderText_last k ks
    intro hempty
    rw [hempty] at hfront
    simp at hfront

/-- **The order of a query is read as the keys that were asked for**, turned around if the last rows
were. -/
theorem readOrder?_resolveOrder {table : String} {o : Order} {last : Bool}
    (h : ∀ k ∈ o.sortKeys table, k.column.IsClean) :
    readOrder? (resolveOrder table o.text last) = some (readKeys last (o.sortKeys table)) := by
  unfold Order.sortKeys at h ⊢
  split at h
  case isTrue hempty =>
    have htext : o.text = "" := by rw [Order.text, hempty]; rfl
    have hkey : ∀ d, readOrder? (SortKey.mk (rowid table) d).text =
        some [((rowid table).text, d)] := by
      intro d
      have hread := readOrder?_text (o := ⟨[⟨rowid table, d⟩]⟩) (by simpa using h) (by simp)
      simpa [orderText_singleton] using hread
    rw [if_pos hempty, resolveOrder, htext, if_pos (by decide), hkey]
    cases last <;> rfl
  case isFalse hne =>
    rw [if_neg hne, resolveOrder, trim_orderText h, if_neg (orderText_ne_empty hne)]
    cases last with
    | false => exact readOrder?_text h hne
    | true =>
      have hflip : ∀ k ∈ o.flip.keys, k.column.IsClean := by
        simpa [Order.flip, SortKey.flip] using h
      have hne' : o.flip.keys ≠ [] := by simpa [Order.flip] using hne
      rw [if_pos rfl, invertOrderText_text h, readOrder?_text hflip hne']
      simp [readKeys, Order.flip, SortKey.flip, Function.comp_def]

end Query
end Tabula
