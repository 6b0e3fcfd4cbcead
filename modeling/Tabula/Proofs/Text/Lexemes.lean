/-
# Words, names and marks

The parts of a statement that stand for themselves are single characters (`tokens`).  Those that may
stand in a name belong together and make up a word, blanks only end words, and any other character
is a mark (`lexemes`).  A word is a name unless it begins like a number or has a meaning of its
own.

A reader takes something from the front of the lexemes (`Reader`).  What it takes is said by one
lemma for each reader, and `Reader.bind_eq` goes on from one to the next.
-/
import Tabula.Proofs.Text.Scanning

namespace Tabula.Text

/-! ## 1. Lexemes -/

/-- A character that may stand in a name that is not quoted. -/
def isNameChar (c : Char) : Bool := c.isAlphanum || c == '_' || c == '$' || 0x80 ≤ c.toNat

/-- A character that such a name may begin with. -/
def beginsName (c : Char) : Bool := isNameChar c && !c.isDigit && c != '$'

/-- What a statement is made of. -/
inductive Lexeme where
  | quoted (name : String)
  | word (w : String)
  | mark (c : Char)
  /-- A literal, or an expression in parentheses. -/
  | value
deriving DecidableEq, Repr

/-- The lexeme of a word, if there is one. -/
def wordLexemes (w : List Char) : List Lexeme := if w = [] then [] else [.word (String.ofList w)]

/-- The lexeme of a character that stands in no word, unless it is blank. -/
def markLexemes (c : Char) : List Lexeme := if c.isWhitespace then [] else [.mark c]

/-- The word that tokens begin with, which may be empty, and the lexemes after it. -/
def cutWord : List Token → List Char × List Lexeme
  | [] => ([], [])
  | t :: ts =>
    let (w, ls) := cutWord ts
    match t with
    | .char c => if isNameChar c then (c :: w, ls) else ([], markLexemes c ++ (wordLexemes w ++ ls))
    | .name s => ([], .quoted s :: (wordLexemes w ++ ls))
    | .literal _ | .expression => ([], .value :: (wordLexemes w ++ ls))

/-- The lexemes of tokens. -/
def lexemes (ts : List Token) : List Lexeme := wordLexemes (cutWord ts).1 ++ (cutWord ts).2

example : lexemes (tokens "INSERT INTO \"a b\" (c1,'x')") =
    [.word "INSERT", .word "INTO", .quoted "a b", .mark '(', .word "c1", .mark ',', .value,
      .mark ')'] := by
  decide

variable {ts : List Token} {w : String} {c : Char} {cs : List Char}

@[simp] theorem lexemes_name (s : String) : lexemes (.name s :: ts) = .quoted s :: lexemes ts := by
  simp [lexemes, cutWord, wordLexemes]

/-- A character that stands in no word ends the word before it. -/
theorem lexemes_char (hc : isNameChar c = false) :
    lexemes (.char c :: ts) = markLexemes c ++ lexemes ts := by
  simp [lexemes, cutWord, hc, wordLexemes]

theorem cutWord_word (h : ∀ c ∈ cs, isNameChar c) :
    cutWord (cs.map .char ++ ts) = (cs ++ (cutWord ts).1, (cutWord ts).2) := by
  induction cs with
  | nil => rfl
  | cons c cs ih =>
    obtain ⟨hc, hcs⟩ := List.forall_mem_cons.mp h
    simp [cutWord, hc, ih hcs]

/-- **A word ends where another kind of character stands**, or with the text. -/
theorem lexemes_word (hw : IsWord isNameChar w) (hts : (cutWord ts).1 = []) :
    lexemes (w.toList.map .char ++ ts) = .word w :: lexemes ts := by
  have hne : w.toList ≠ [] := fun h => hw.ne_empty (String.toList_eq_nil_iff.mp h)
  rw [lexemes, lexemes, cutWord_word hw.forall_mem, hts, List.append_nil]
  simp [wordLexemes, hne]

/-- A word, and what ends it. -/
theorem lexemes_word_char (hw : IsWord isNameChar w) (hc : isNameChar c = false) :
    lexemes (w.toList.map .char ++ .char c :: ts) = .word w :: (markLexemes c ++ lexemes ts) := by
  rw [lexemes_word hw (by simp [cutWord, hc]), lexemes_char hc]

/-- The same in plain text. -/
theorem lexemes_plain_word (hw : IsWord isNameChar w) (hc : isNameChar c = false) :
    lexemes ((w.toList ++ c :: cs).map .char) =
      .word w :: (markLexemes c ++ lexemes (cs.map .char)) := by
  rw [List.map_append, List.map_cons, lexemes_word_char hw hc]

/-- Marks and blanks. -/
theorem lexemes_marks (h : cs.all (!isNameChar ·)) :
    lexemes (cs.map .char ++ ts) = cs.flatMap markLexemes ++ lexemes ts := by
  induction cs with
  | nil => rfl
  | cons c cs ih =>
    rw [List.all_cons, Bool.and_eq_true, Bool.not_eq_true'] at h
    rw [List.map_cons, List.cons_append, lexemes_char h.1, ih h.2, List.flatMap_cons,
      List.append_assoc]

theorem lexemes_identifier (s : String) (hcs : Begins isCalm cs) :
    lexemes (scan (.plain 0) ((identifier s).toList ++ cs)) =
      .quoted s :: lexemes (scan (.plain 0) cs) := by
  rw [identifier, scan_enclosed rfl hcs]
  simp [quotedToken]

/-! ## 2. Names -/

/-- Whether a word is a name; some words have a meaning of their own. -/
def isBare (reserved : String → Bool) (w : String) : Bool :=
  w.toList.head?.any beginsName && !reserved w

/-- A name that need not be quoted. -/
structure IsBareName (reserved : String → Bool) (w : String) : Prop where
  word : IsWord isNameChar w
  bare : isBare reserved w

instance (reserved : String → Bool) (w : String) : Decidable (IsBareName reserved w) :=
  decidable_of_iff (IsWord isNameChar w ∧ isBare reserved w)
    ⟨fun ⟨hword, hbare⟩ => ⟨hword, hbare⟩, fun ⟨hword, hbare⟩ => ⟨hword, hbare⟩⟩

/-- Nothing is quoted in such a name, and no parenthesis is opened. -/
theorem IsBareName.isInert {reserved : String → Bool} (h : IsBareName reserved w) : IsInert w := by
  intro c hc
  have hname := h.word.forall_mem c hc
  constructor
  · intro hquote
    have hcases : c = '"' ∨ c = '\'' := by simpa [isQuote] using hquote
    rcases hcases with rfl | rfl <;> exact absurd hname (by decide)
  · rintro rfl
    exact absurd hname (by decide)

/-- The name that a lexeme is. -/
def Lexeme.name? (reserved : String → Bool) : Lexeme → Option String
  | quoted s => some s
  | word w => if isBare reserved w then some w else none
  | mark _ | value => none

theorem IsBareName.name?_word {reserved : String → Bool} (h : IsBareName reserved w) :
    (Lexeme.word w).name? reserved = some w :=
  if_pos h.bare

/-! ## 3. Readers -/

/-- Takes something from the front of lexemes, if it is there. -/
abbrev Reader := StateT (List Lexeme) Option

namespace Reader

variable {α β : Type} {ls ls' : List Lexeme}

/-- **One reader after another.** -/
theorem bind_eq {r : Reader α} {f : α → Reader β} {a : α} (h : r ls = some (a, ls')) :
    (r >>= f) ls = f a ls' := by
  simp [bind, StateT.bind, h]

/-- Reads a mark. -/
def mark (c : Char) : Reader Unit
  | [] => none
  | l :: ls => if l = .mark c then some ((), ls) else none

/-- Reads a keyword, in upper or lower case. -/
def keyword (k : String) : Reader Unit
  | .word w :: ls => if w.toList.map Char.toUpper = k.toList then some ((), ls) else none
  | _ => none

/-- Reads a name. -/
def name (reserved : String → Bool) : Reader String
  | [] => none
  | l :: ls => (l.name? reserved).map fun s => (s, ls)

theorem mark_cons (c : Char) : mark c (.mark c :: ls) = some ((), ls) := if_pos rfl

theorem keyword_cons {k : String} (h : k.toList.map Char.toUpper = k.toList) :
    keyword k (.word k :: ls) = some ((), ls) :=
  if_pos h

theorem name_cons {reserved : String → Bool} {l : Lexeme} {s : String}
    (h : l.name? reserved = some s) : name reserved (l :: ls) = some (s, ls) := by
  simp [name, h]

/-- Reads a name that is qualified by another one. -/
def column (reserved : String → Bool) : Reader (String × String) := do
  let table ← name reserved
  mark '.'
  let column ← name reserved
  return (table, column)

theorem column_cons {reserved : String → Bool} {l l' : Lexeme} {table s : String}
    (hl : l.name? reserved = some table) (hl' : l'.name? reserved = some s) :
    column reserved (l :: .mark '.' :: l' :: ls) = some ((table, s), ls) := by
  rw [column, bind_eq (name_cons hl), bind_eq (mark_cons '.'), bind_eq (name_cons hl')]
  rfl

/-- Reads the parts of a list, with commas between them. -/
def separated (part : Reader α) (ls : List Lexeme) : Option (List α × List Lexeme) :=
  match part ls with
  | some (a, .mark ',' :: rest) =>
    if rest.length < ls.length then (separated part rest).map fun r => (a :: r.1, r.2) else none
  | some (a, rest) => some ([a], rest)
  | none => none
termination_by ls.length

end Reader

/-- The lexemes of a list, with commas between its parts. -/
def listLexemes : List (List Lexeme) → List Lexeme
  | [] => []
  | [part] => part
  | part :: part' :: parts => part ++ .mark ',' :: listLexemes (part' :: parts)

/-- **A list is read part by part.** -/
theorem Reader.separated_listLexemes {α β : Type} {part : Reader β} {f : α → List Lexeme}
    {g : α → β} {as : List α} {rest : List Lexeme} (hne : as ≠ [])
    (hpart : ∀ a ∈ as, ∀ rest, part (f a ++ rest) = some (g a, rest))
    (hrest : rest.head? ≠ some (.mark ',')) :
    separated part (listLexemes (as.map f) ++ rest) = some (as.map g, rest) := by
  induction as with
  | nil => exact absurd rfl hne
  | cons a as ih =>
    obtain ⟨ha, has⟩ := List.forall_mem_cons.mp hpart
    cases as with
    | nil =>
      rw [List.map_singleton, listLexemes, separated, ha]
      split
      case h_1 heq =>
        cases heq
        exact absurd rfl hrest
      case h_2 heq => cases heq; rfl
      case h_3 heq => cases heq
    | cons a' as =>
      have hlist : listLexemes ((a :: a' :: as).map f) ++ rest =
          f a ++ .mark ',' :: (listLexemes ((a' :: as).map f) ++ rest) := by
        simp [listLexemes]
      have hlength : (listLexemes ((a' :: as).map f) ++ rest).length <
          (f a ++ .mark ',' :: (listLexemes ((a' :: as).map f) ++ rest)).length := by
        simp only [List.length_append, List.length_cons]
        omega
      rw [hlist, separated, ha]
      simp only [if_pos hlength]
      rw [ih (by simp) has]
      rfl

end Tabula.Text
