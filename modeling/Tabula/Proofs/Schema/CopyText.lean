/-
# Copying rows, as an engine reads it

A statement that copies rows names its columns twice: in the list of INSERT, where they are quoted,
and in the SELECT, where they are qualified by the table that is copied and not quoted.  Each list
is written for itself.  Read from the text, where all names are plain, the two list the same columns
in the same order (`read?_copyText`), so that each column is copied to itself.
-/
import Tabula.Proofs.Schema.QuotedNames
import Tabula.Proofs.Text.Lexemes

namespace Tabula.Schema

open Tabula.Text
open Tabula.Query (rowidColumn)

/-! ## 1. Reading -/

/-- A statement that copies rows, as it is read. -/
structure CopyStatement where
  target : String
  /-- The columns that are inserted, in order. -/
  columns : List String
  /-- The columns that are selected, in order, each after the name that qualifies it. -/
  selected : List (String × String)
  source : String
  order : String × String
deriving DecidableEq, Repr

namespace CopyStatement

variable (reserved : String → Bool)

/-- INSERT with a SELECT of columns in ascending order. -/
def reader : Reader CopyStatement := do
  .keyword "INSERT"
  .keyword "INTO"
  let target ← .name reserved
  .mark '('
  let columns ← Reader.separated (.name reserved)
  .mark ')'
  .keyword "SELECT"
  let selected ← Reader.separated (.column reserved)
  .keyword "FROM"
  let source ← .name reserved
  .keyword "ORDER"
  .keyword "BY"
  let order ← .column reserved
  .keyword "ASC"
  return ⟨target, columns, selected, source, order⟩

/-- Reads a text to its end. -/
def read? (text : String) : Option CopyStatement :=
  match reader reserved (lexemes (tokens text)) with
  | some (c, []) => some c
  | _ => none

end CopyStatement

/-! ## 2. The lexemes of the text -/

variable {reserved : String → Bool} {source table : String} {names : List String} {cs : List Char}

/-- The lexemes of a column that is qualified by a table. -/
def columnLexemes (source name : String) : List Lexeme := [.word source, .mark '.', .word name]

theorem toList_columnRefText (source name : String) :
    (source ++ "." ++ name).toList = source.toList ++ '.' :: name.toList := by
  simp

/-- Names in a list of quoted identifiers. -/
theorem lexemes_identifierList (hne : names ≠ []) (hcs : Begins isCalm cs) :
    lexemes (scan (.plain 0) ((identifierList names).toList ++ cs)) =
      listLexemes (names.map fun s => [.quoted s]) ++ lexemes (scan (.plain 0) cs) := by
  unfold identifierList
  induction names with
  | nil => exact absurd rfl hne
  | cons s names ih =>
    cases names with
    | nil =>
      have hsingle : String.intercalate ", " ([s].map identifier) = identifier s := by simp
      rw [hsingle, lexemes_identifier s hcs]
      rfl
    | cons s' names =>
      rw [List.map_cons, List.map_cons, String.intercalate_cons_cons, String.toList_append,
        String.toList_append, List.append_assoc, List.append_assoc,
        lexemes_identifier s (begins_word (by decide)),
        scan_plain (by decide : matchedBy 0 ", ".toList = some 0), lexemes_marks (by decide),
        ← List.map_cons, ih (by simp)]
      rfl

/-- Columns in the list of a SELECT. -/
theorem lexemes_columns (hsource : IsWord isNameChar source)
    (hnames : ∀ s ∈ names, IsWord isNameChar s) (hne : names ≠ []) :
    lexemes (((String.intercalate ", " (names.map fun s => source ++ "." ++ s)).toList ++
        ' ' :: cs).map .char) =
      listLexemes (names.map (columnLexemes source)) ++ lexemes (cs.map .char) := by
  have hcolumn : ∀ (s : String) (c : Char) (rest : List Char), IsWord isNameChar s →
      isNameChar c = false →
      lexemes (((source ++ "." ++ s).toList ++ c :: rest).map .char) =
        columnLexemes source s ++ (markLexemes c ++ lexemes (rest.map .char)) := by
    intro s c rest hs hc
    rw [toList_columnRefText, List.append_assoc, List.cons_append,
      lexemes_plain_word hsource (by decide), lexemes_plain_word hs hc]
    rfl
  induction names with
  | nil => exact absurd rfl hne
  | cons s names ih =>
    obtain ⟨hs, hrest⟩ := List.forall_mem_cons.mp hnames
    cases names with
    | nil =>
      have hsingle : String.intercalate ", " ([s].map fun s => source ++ "." ++ s) =
          source ++ "." ++ s := by simp
      rw [hsingle, hcolumn s ' ' cs hs (by decide)]
      rfl
    | cons s' names =>
      have hlist : (String.intercalate ", "
            ((s :: s' :: names).map fun s => source ++ "." ++ s)).toList ++ ' ' :: cs =
          (source ++ "." ++ s).toList ++ ',' :: (' ' :: ((String.intercalate ", "
            ((s' :: names).map fun s => source ++ "." ++ s)).toList ++ ' ' :: cs)) := by
        simp [String.intercalate_cons_cons]
      have hblank : ∀ rest : List Char,
          lexemes ((' ' :: rest).map .char) = lexemes (rest.map .char) :=
        fun rest => lexemes_char (by decide)
      rw [hlist, hcolumn s ',' _ hs (by decide), hblank, ih hrest (by simp)]
      rfl

/-- The lexemes of the SELECT that copies rows. -/
def selectLexemes (source : String) (names : List String) : List Lexeme :=
  .word "SELECT" :: (listLexemes (names.map (columnLexemes source)) ++
    [.word "FROM", .word source, .word "ORDER", .word "BY", .word source, .mark '.',
      .word rowidColumn, .word "ASC"])

namespace Ddl

theorem lexemes_copySelect (hsource : IsWord isNameChar source)
    (hnames : ∀ s ∈ names, IsWord isNameChar s) (hne : names ≠ []) :
    lexemes ((copySelect source names).text.toList.map .char) = selectLexemes source names := by
  have htext : (copySelect source names).text.toList = "SELECT".toList ++ ' ' ::
      ((String.intercalate ", " (names.map fun s => source ++ "." ++ s)).toList ++ ' ' ::
        ("FROM".toList ++ ' ' :: (source.toList ++ ' ' :: ("ORDER".toList ++ ' ' ::
          ("BY".toList ++ ' ' :: (source.toList ++ '.' :: (rowidColumn.toList ++ ' ' ::
            "ASC".toList))))))) := by
    have hselect : "SELECT ".toList = "SELECT".toList ++ [' '] := by decide
    have hfrom : " FROM ".toList = ' ' :: ("FROM".toList ++ [' ']) := by decide
    have horder : " ORDER BY ".toList =
        ' ' :: ("ORDER".toList ++ ' ' :: ("BY".toList ++ [' '])) := by
      decide
    have hrowid : ".rowid ASC".toList = '.' :: (rowidColumn.toList ++ ' ' :: "ASC".toList) := by
      decide
    rw [text_copySelect, copiedColumnsText, if_neg hne]
    simp only [String.toList_append, hselect, hfrom, horder, hrowid, List.append_assoc,
      List.cons_append, List.nil_append]
  have hlast : lexemes ("ASC".toList.map .char) = [.word "ASC"] := by decide
  rw [htext, lexemes_plain_word (by decide) (by decide), lexemes_columns hsource hnames hne,
    lexemes_plain_word (by decide) (by decide), lexemes_plain_word hsource (by decide),
    lexemes_plain_word (by decide) (by decide), lexemes_plain_word (by decide) (by decide),
    lexemes_plain_word hsource (by decide), lexemes_plain_word (by decide) (by decide), hlast]
  rfl

/-- The SELECT is plain text. -/
theorem scan_copySelect (hsource : IsInert source) (hnames : ∀ s ∈ names, IsInert s) :
    scan (.plain 0) (copySelect source names).text.toList =
      (copySelect source names).text.toList.map .char := by
  have hwords : ∀ w ∈ selectWords, IsInert w := by decide
  have hinert : IsInert (copySelect source names).text :=
    forall_mem_copySelect hwords hsource hnames
  obtain ⟨k, hk⟩ := hinert.exists_matchedBy
  have hscan : scan (.plain 0) ((copySelect source names).text.toList ++ []) =
      (copySelect source names).text.toList.map .char ++ scan (.plain k) [] := scan_plain hk
  rwa [List.append_nil, scan, Mode.finish, List.append_nil] at hscan

theorem lexemes_copyText (hsource : IsBareName reserved source)
    (hnames : ∀ s ∈ names, IsBareName reserved s) (hne : names ≠ []) :
    lexemes (tokens (copyRows table source names).text) =
      .word "INSERT" :: .word "INTO" :: .quoted table :: .mark '(' ::
        (listLexemes (names.map fun s => [.quoted s]) ++
          .mark ')' :: selectLexemes source names) := by
  have htext : (copyRows table source names).text.toList = "INSERT INTO ".toList ++
      ((identifier table).toList ++ (" (".toList ++ ((identifierList names).toList ++
        (") ".toList ++ (copySelect source names).text.toList)))) := by
    have hparts : (copyRows table source names).text = "INSERT INTO " ++ identifier table ++ " (" ++
        identifierList names ++ ") " ++ (copySelect source names).text := rfl
    simp only [hparts, String.toList_append, List.append_assoc]
  have hinsert : ∀ ts, lexemes ("INSERT INTO ".toList.map .char ++ ts) =
      .word "INSERT" :: .word "INTO" :: lexemes ts := by
    intro ts
    have hsplit : "INSERT INTO ".toList.map Token.char ++ ts = "INSERT".toList.map .char ++
        .char ' ' :: ("INTO".toList.map .char ++ .char ' ' :: ts) := rfl
    rw [hsplit, lexemes_word_char (by decide) (by decide),
      lexemes_word_char (by decide) (by decide)]
    rfl
  rw [tokens, htext, scan_plain (by decide : matchedBy 0 "INSERT INTO ".toList = some 0), hinsert,
    lexemes_identifier table (begins_word (by decide)),
    scan_plain (by decide : matchedBy 0 " (".toList = some 0), lexemes_marks (by decide),
    lexemes_identifierList hne (begins_word (by decide)),
    scan_plain (by decide : matchedBy 0 ") ".toList = some 0), lexemes_marks (by decide),
    scan_copySelect hsource.isInert fun s hs => (hnames s hs).isInert,
    lexemes_copySelect hsource.word (fun s hs => (hnames s hs).word) hne]
  rfl

/-! ## 3. The statement -/

/-- **Both lists are read as the same columns**, in the same order. -/
theorem read?_copyText (hsource : IsBareName reserved source)
    (hnames : ∀ s ∈ names, IsBareName reserved s) (hne : names ≠ [])
    (hrowid : IsBareName reserved rowidColumn) :
    CopyStatement.read? reserved (copyRows table source names).text =
      some ⟨table, names, names.map fun s => (source, s), source, (source, rowidColumn)⟩ := by
  have hquoted : ∀ s ∈ names, ∀ rest : List Lexeme,
      Reader.name reserved ([.quoted s] ++ rest) = some (id s, rest) := by
    intro s _ rest
    exact Reader.name_cons rfl
  have hcolumn : ∀ s ∈ names, ∀ rest : List Lexeme,
      Reader.column reserved (columnLexemes source s ++ rest) = some ((source, s), rest) := by
    intro s hs rest
    exact Reader.column_cons hsource.name?_word (hnames s hs).name?_word
  rw [CopyStatement.read?, lexemes_copyText hsource hnames hne, CopyStatement.reader,
    Reader.bind_eq (Reader.keyword_cons (by decide)),
    Reader.bind_eq (Reader.keyword_cons (by decide)),
    Reader.bind_eq (Reader.name_cons rfl),
    Reader.bind_eq (Reader.mark_cons '('),
    Reader.bind_eq (Reader.separated_listLexemes hne hquoted (by simp)), List.map_id,
    Reader.bind_eq (Reader.mark_cons ')'), selectLexemes,
    Reader.bind_eq (Reader.keyword_cons (by decide)),
    Reader.bind_eq (Reader.separated_listLexemes hne hcolumn (by simp)),
    Reader.bind_eq (Reader.keyword_cons (by decide)),
    Reader.bind_eq (Reader.name_cons hsource.name?_word),
    Reader.bind_eq (Reader.keyword_cons (by decide)),
    Reader.bind_eq (Reader.keyword_cons (by decide)),
    Reader.bind_eq (Reader.column_cons hsource.name?_word hrowid.name?_word),
    Reader.bind_eq (Reader.keyword_cons (by decide))]
  rfl

end Ddl

end Tabula.Schema
