/-
# What the text of CREATE TABLE says

The text that creates a table states a name, and then one definition after the other: for each column
its name, type, constraints and default, and the keys (`Definition`).  Names and literals are quoted,
so that none of them can be taken for another part of the text, and each of the other parts is known
from its first word.  The text therefore says all of this and nothing else
(`createText_eq_iff`), as long as no default is an expression, which may hold any text.
-/
import Mathlib.Data.List.Basic
import Tabula.Proofs.Text.Legible
import Tabula.Schema.Ddl

namespace Tabula.Schema

open Tabula.Text

/-! ## 1. Definitions -/

/-- A part of a table definition, with all that its text states. -/
inductive Definition where
  | column (name type : String) (nullable unique : Bool) (default? : Option String)
  | primaryKey (columns : List String)
  | foreignKey (k : ForeignKey)
deriving DecidableEq, Repr

namespace Definition

/-- The definition as SQL. -/
def text : Definition → String
  | column name type nullable unique default? =>
    identifier name ++ " " ++ type ++ clauseText " NOT NULL" (flag !nullable) ++
      clauseText " UNIQUE" (flag unique) ++ clauseText " DEFAULT " default?
  | primaryKey columns => "PRIMARY KEY (" ++ identifierList columns ++ ")"
  | foreignKey k => k.definition

end Definition

/-- What the definition of a column states. -/
def Column.stated (c : Column) : Definition :=
  .column c.name c.type.sql c.nullable c.unique c.default.sql?

/-- What the definition of a table states, beside its name. -/
def Table.stated (t : Table) : List Definition :=
  t.columns.map Column.stated ++ (if t.primaryKey = [] then [] else [.primaryKey t.primaryKey]) ++
    t.foreignKeys.map .foreignKey

theorem Column.definition_eq_text (c : Column) : c.definition true = c.stated.text := by
  unfold definition stated Definition.text
  simp only [clauseText_flag]
  cases c.nullable <;> rfl

theorem Table.definitions_eq (t : Table) : t.definitions = t.stated.map Definition.text := by
  have hcolumns : t.columns.map (·.definition true) =
      (t.columns.map Column.stated).map Definition.text := by
    simp [Column.definition_eq_text]
  have hkeys : t.foreignKeys.map ForeignKey.definition =
      (t.foreignKeys.map Definition.foreignKey).map Definition.text := by
    rw [List.map_map]
    rfl
  unfold definitions stated primaryKeyDefinition
  rw [hcolumns, hkeys]
  split <;> simp [Definition.text]

/-! ## 2. Columns -/

/-- **The text of a default is a word, a literal, or an expression in parentheses.** -/
theorem DefaultValue.sql?_cases {d : DefaultValue} {sql : String} (hd : sql ∈ d.sql?) :
    IsWord standsInNumber sql ∨ (∃ s, sql = stringLiteral s) ∨
      ∃ e, d = .expression e ∧ sql = "(" ++ e ++ ")" := by
  cases d with
  | absent => exact absurd hd (by simp [DefaultValue.sql?])
  | null =>
    obtain rfl := Option.some.inj hd
    exact .inl (by decide)
  | bool b =>
    obtain rfl := Option.some.inj hd
    exact .inl (by cases b <;> decide)
  | integer n =>
    obtain rfl := Option.some.inj hd
    exact .inl (isWord_intText _)
  | float x =>
    obtain rfl := Option.some.inj hd
    exact .inl (isWord_floatText _)
  | text s =>
    obtain rfl := Option.some.inj hd
    exact .inr (.inl ⟨s, rfl⟩)
  | expression e =>
    obtain rfl := Option.some.inj hd
    exact .inr (.inr ⟨e, rfl, rfl⟩)

/-- A default that is no expression. -/
def DefaultValue.IsLiteral (d : DefaultValue) : Prop := ∀ e, d ≠ .expression e

/-- The text of a default that is a word or a literal. -/
def IsDefaultText (sql : String) : Prop := IsWord standsInWord sql ∨ ∃ s, sql = stringLiteral s

theorem DefaultValue.IsLiteral.isDefaultText {d : DefaultValue} {sql : String} (h : d.IsLiteral)
    (hd : sql ∈ d.sql?) : IsDefaultText sql := by
  rcases sql?_cases hd with hword | hliteral | ⟨e, he, -⟩
  · exact .inl (hword.mono fun _ => standsInWord_of_standsInNumber)
  · exact .inr hliteral
  · exact absurd he (h e)

theorem isWord_typeText (t : ColumnType) : IsWord standsInWord t.sql := by cases t <;> decide

namespace Definition

variable {r s : List Char} {a b : String} {ws : List String}

theorem isDefaultText_append_inj (ha : IsDefaultText a) (hb : IsDefaultText b) (hr : Opens [] r)
    (hs : Opens [] s) (h : a.toList ++ r = b.toList ++ s) : a = b ∧ r = s := by
  -- A literal begins with a quote, which stands in no word.
  have hquote : ∀ {t u : String} {v w : List Char}, IsWord standsInWord t →
      t.toList ++ v ≠ (stringLiteral u).toList ++ w := by
    intro t u v w ht heq
    obtain ⟨c, cs, hcs, hc⟩ := ht.exists_cons
    rw [hcs, stringLiteral, toList_enclosed_append] at heq
    obtain rfl := (List.cons.inj heq).1
    exact absurd hc (by decide)
  rcases ha with ha | ⟨u, rfl⟩ <;> rcases hb with hb | ⟨v, rfl⟩
  · exact ha.append_inj hb (hr.not_standsInWord (by simp)) (hs.not_standsInWord (by simp)) h
  · exact absurd h (hquote ha)
  · exact absurd h.symm (hquote hb)
  · obtain ⟨rfl, hrest⟩ := enclosed_append_inj (hr.head_ne (by decide)) (hs.head_ne (by decide)) h
    exact ⟨rfl, hrest⟩

/-- The clause for a default can be told apart from that for another one. -/
theorem legible_defaultClause :
    Legible (fun d? => ∀ sql ∈ d?, IsDefaultText sql) [] (clauseText " DEFAULT ") := by
  have hmark : Marks " DEFAULT " [] := by decide
  intro a b r s ha hb hr hs h
  rcases hmark.clause_cases hr hs h with ⟨rfl, rfl, hrest⟩ | ⟨u, u', rfl, rfl, hrest⟩
  · exact ⟨rfl, hrest⟩
  · obtain ⟨rfl, hend⟩ := isDefaultText_append_inj (ha u rfl) (hb u' rfl) hr hs hrest
    exact ⟨rfl, hend⟩

/-! ## 3. Foreign keys -/

/-- No name of an action is the beginning of another one. -/
theorem actionText_append_inj {e f : KeyAction} (h : e.sql.toList ++ r = f.sql.toList ++ s) :
    e = f ∧ r = s := by
  have hapart : ∀ e f : KeyAction, e.sql.toList <+: f.sql.toList → e = f := by
    intro e f
    cases e <;> cases f <;> decide
  have hef : e = f := by
    rcases List.append_eq_append_iff.mp h with ⟨x, hx, -⟩ | ⟨x, hx, -⟩
    · exact hapart e f ⟨x, hx.symm⟩
    · exact (hapart f e ⟨x, hx.symm⟩).symm
  subst hef
  exact ⟨rfl, List.append_cancel_left h⟩

/-- The word that begins the clause for an event. -/
def eventWord (event : String) : String := " ON " ++ event ++ " "

/-- What the clause for an event names. -/
def action? (e : KeyAction) : Option String := if e = .noAction then none else some e.sql

theorem clause_eq_clauseText (event : String) (e : KeyAction) :
    e.clause event = clauseText (eventWord event) (action? e) := by
  unfold KeyAction.clause action?
  split <;> rfl

theorem legible_actionClause {event : String} (hmark : Marks (eventWord event) ws) :
    Legible (fun _ => True) ws (KeyAction.clause event) := by
  intro e f r s _ _ hr hs h
  rw [clause_eq_clauseText, clause_eq_clauseText] at h
  rcases hmark.clause_cases hr hs h with ⟨he, hf, hrest⟩ | ⟨u, u', he, hf, hrest⟩
  · have hnone : ∀ {e : KeyAction}, action? e = none → e = .noAction := by
      intro e
      cases e <;> decide
    exact ⟨(hnone he).trans (hnone hf).symm, hrest⟩
  · have hsome : ∀ {e : KeyAction} {u : String}, action? e = some u → u = e.sql := by
      intro e u he
      unfold action? at he
      split at he
      · exact absurd he (by simp)
      · exact (Option.some.inj he).symm
    obtain rfl := hsome he
    obtain rfl := hsome hf
    exact actionText_append_inj hrest

/-! ## 4. Definitions -/

/-- A definition with the words and defaults that definitions have. -/
def IsReadable : Definition → Prop
  | column _ type _ _ default? => IsWord standsInWord type ∧ ∀ sql ∈ default?, IsDefaultText sql
  | primaryKey _ => True
  | foreignKey _ => True

/-- How a definition begins. -/
def firstChar : Definition → Char
  | column _ _ _ _ _ => '"'
  | primaryKey _ => 'P'
  | foreignKey _ => 'F'

theorem exists_text_eq_cons (d : Definition) : ∃ cs, d.text.toList = d.firstChar :: cs := by
  cases d with
  | column =>
    unfold text
    simp only [String.toList_append, List.append_assoc, identifier, toList_enclosed_append]
    exact ⟨_, rfl⟩
  | primaryKey =>
    unfold text
    simp only [String.toList_append, List.append_assoc]
    exact ⟨_, rfl⟩
  | foreignKey =>
    unfold text ForeignKey.definition
    simp only [String.toList_append, List.append_assoc]
    exact ⟨_, rfl⟩

theorem column_append_inj {name name' type type' : String} {nullable nullable' unique unique' : Bool}
    {default? default?' : Option String}
    (ha : (column name type nullable unique default?).IsReadable)
    (hb : (column name' type' nullable' unique' default?').IsReadable)
    (hr : Opens [] r) (hs : Opens [] s)
    (h : (column name type nullable unique default?).text.toList ++ r =
      (column name' type' nullable' unique' default?').text.toList ++ s) :
    column name type nullable unique default? = column name' type' nullable' unique' default?' ∧
      r = s := by
  unfold text at h
  simp only [String.toList_append, List.append_assoc] at h
  -- What follows each part, from the last one to the first.
  have hdr := hr.append_clause (w := " DEFAULT ") default?
  have hds := hs.append_clause (w := " DEFAULT ") default?'
  have hur := hdr.append_clause (w := " UNIQUE") (flag unique)
  have hus := hds.append_clause (w := " UNIQUE") (flag unique')
  have hnr := hur.append_clause (w := " NOT NULL") (flag !nullable)
  have hns := hus.append_clause (w := " NOT NULL") (flag !nullable')
  obtain ⟨rfl, htype⟩ := enclosed_append_inj (by simp) (by simp) h
  obtain ⟨rfl, hnull⟩ := ha.1.append_inj hb.1 (hnr.not_standsInWord (by decide))
    (hns.not_standsInWord (by decide)) (List.append_cancel_left htype)
  obtain ⟨hnullable, hunique⟩ := legible_flag (by decide) trivial trivial hur hus hnull
  obtain ⟨rfl, hdefault⟩ := legible_flag (by decide) trivial trivial hdr hds hunique
  obtain ⟨rfl, hrest⟩ := legible_defaultClause ha.2 hb.2 hr hs hdefault
  rw [Bool.not_inj hnullable]
  exact ⟨rfl, hrest⟩

theorem foreignKey_append_inj {k l : ForeignKey} (hr : Opens [] r) (hs : Opens [] s)
    (h : k.definition.toList ++ r = l.definition.toList ++ s) : k = l ∧ r = s := by
  obtain ⟨columns, table, references, onDelete, onUpdate⟩ := k
  obtain ⟨columns', table', references', onDelete', onUpdate'⟩ := l
  unfold ForeignKey.definition at h
  simp only [String.toList_append, List.append_assoc] at h
  have hopens : ∀ {e : KeyAction} {u : List Char}, Opens [] u →
      Opens [eventWord "UPDATE"] ((e.clause "UPDATE").toList ++ u) := by
    intro e u hu
    rw [clause_eq_clauseText]
    exact hu.append_clause _
  obtain ⟨rfl, htable⟩ := identifierList_append_inj
    (r := " REFERENCES ".toList ++ _) (s := " REFERENCES ".toList ++ _) (List.append_cancel_left h)
  obtain ⟨rfl, hreferences⟩ := enclosed_append_inj (by simp) (by simp)
    (List.append_cancel_left htable)
  obtain ⟨rfl, hdelete⟩ := identifierList_append_inj
    (List.append_cancel_left hreferences)
  obtain ⟨rfl, hupdate⟩ :=
    legible_actionClause (by decide) trivial trivial (hopens hr) (hopens hs) hdelete
  obtain ⟨rfl, hrest⟩ := legible_actionClause (by decide) trivial trivial hr hs hupdate
  exact ⟨rfl, hrest⟩

/-- **The text of a definition says which one it is.** -/
theorem legible_text : Legible IsReadable [] text := by
  intro d e r s hd he hr hs h
  have hfirst : d.firstChar = e.firstChar := by
    obtain ⟨cs, hcs⟩ := d.exists_text_eq_cons
    obtain ⟨ds, hds⟩ := e.exists_text_eq_cons
    rw [hcs, hds] at h
    exact (List.cons.inj h).1
  cases d with
  | column name type nullable unique default? =>
    cases e with
    | column => exact column_append_inj hd he hr hs h
    | primaryKey => exact absurd hfirst (by simp [firstChar])
    | foreignKey => exact absurd hfirst (by simp [firstChar])
  | primaryKey columns =>
    cases e with
    | column => exact absurd hfirst (by simp [firstChar])
    | primaryKey columns' =>
      unfold text at h
      simp only [String.toList_append, List.append_assoc] at h
      obtain ⟨rfl, hrest⟩ := identifierList_append_inj (List.append_cancel_left h)
      exact ⟨rfl, hrest⟩
    | foreignKey => exact absurd hfirst (by simp [firstChar])
  | foreignKey k =>
    cases e with
    | column => exact absurd hfirst (by simp [firstChar])
    | primaryKey => exact absurd hfirst (by simp [firstChar])
    | foreignKey l =>
      obtain ⟨rfl, hrest⟩ := foreignKey_append_inj hr hs h
      exact ⟨rfl, hrest⟩

end Definition

/-! ## 5. Tables -/

/-- A table without expressions as defaults. -/
def Table.IsLiteral (t : Table) : Prop := ∀ c ∈ t.columns, c.default.IsLiteral

variable {t u : Table}

theorem Table.createText_eq (t : Table) : t.createText = "CREATE TABLE " ++ identifier t.name ++
    " (" ++ String.intercalate ", " (t.stated.map Definition.text) ++ ")" := by
  unfold createText
  rw [definitions_eq]

theorem Table.IsLiteral.isReadable (h : t.IsLiteral) : ∀ d ∈ t.stated, d.IsReadable := by
  intro d hd
  simp only [Table.stated, List.mem_append, List.mem_map] at hd
  rcases hd with (⟨c, hc, rfl⟩ | hd) | ⟨k, -, rfl⟩
  · exact ⟨isWord_typeText _, fun sql hsql => (h c hc).isDefaultText hsql⟩
  · split at hd
    · exact absurd hd List.not_mem_nil
    · obtain rfl := List.mem_singleton.mp hd
      trivial
  · trivial

/-- A definition, if it is that of a column. -/
def Definition.column? : Definition → Option Definition
  | column name type nullable unique default? => some (column name type nullable unique default?)
  | _ => none

/-- The columns of a primary key. -/
def Definition.primaryKey? : Definition → Option (List String)
  | primaryKey columns => some columns
  | _ => none

/-- A foreign key. -/
def Definition.foreignKey? : Definition → Option ForeignKey
  | foreignKey k => some k
  | _ => none

/-- What a reading finds in the definitions of a table. -/
theorem Table.filterMap_stated {β : Type} (t : Table) (f : Definition → Option β) :
    t.stated.filterMap f = t.columns.filterMap (fun c => f c.stated) ++
      (if t.primaryKey = [] then [] else (f (.primaryKey t.primaryKey)).toList) ++
        t.foreignKeys.filterMap (fun k => f (.foreignKey k)) := by
  have hkey : (if t.primaryKey = [] then [] else [.primaryKey t.primaryKey]).filterMap f =
      if t.primaryKey = [] then [] else (f (.primaryKey t.primaryKey)).toList := by
    split
    · rfl
    · cases hf : f (.primaryKey t.primaryKey) <;> simp [hf]
  rw [stated, List.filterMap_append, List.filterMap_append, List.filterMap_map,
    List.filterMap_map, hkey]
  rfl

theorem Table.filterMap_column?_stated (t : Table) :
    t.stated.filterMap Definition.column? = t.columns.map Column.stated := by
  rw [filterMap_stated]
  simp only [Definition.column?, Column.stated, List.filterMap_none, List.filterMap_eq_map']
  split <;> simp [Column.stated]

theorem Table.filterMap_primaryKey?_stated (t : Table) :
    (t.stated.filterMap Definition.primaryKey?).flatten = t.primaryKey := by
  rw [filterMap_stated]
  simp only [Definition.primaryKey?, Column.stated, List.filterMap_none]
  by_cases h : t.primaryKey = [] <;> simp [h]

theorem Table.filterMap_foreignKey?_stated (t : Table) :
    t.stated.filterMap Definition.foreignKey? = t.foreignKeys := by
  rw [filterMap_stated]
  simp only [Definition.foreignKey?, Column.stated, List.filterMap_none]
  split <;> simp

/-- The parts of a table are known from its definitions. -/
theorem Table.stated_inj (h : t.stated = u.stated) :
    t.columns.map Column.stated = u.columns.map Column.stated ∧ t.primaryKey = u.primaryKey ∧
      t.foreignKeys = u.foreignKeys := by
  refine ⟨?_, ?_, ?_⟩
  · rw [← t.filterMap_column?_stated, h, u.filterMap_column?_stated]
  · rw [← t.filterMap_primaryKey?_stated, h, u.filterMap_primaryKey?_stated]
  · rw [← t.filterMap_foreignKey?_stated, h, u.filterMap_foreignKey?_stated]

/-- **The text that creates a table says its name, its columns with their types, constraints and
defaults, and its keys, and nothing else.** -/
theorem createText_eq_iff (ht : t.IsLiteral) (hu : u.IsLiteral) :
    t.createText = u.createText ↔ t.name = u.name ∧
      t.columns.map Column.stated = u.columns.map Column.stated ∧ t.primaryKey = u.primaryKey ∧
        t.foreignKeys = u.foreignKeys := by
  constructor
  · intro h
    have hlist := congrArg String.toList h
    simp only [Table.createText_eq, String.toList_append, List.append_assoc] at hlist
    obtain ⟨hname, hrest⟩ := enclosed_append_inj (by simp) (by simp) (List.append_cancel_left hlist)
    have hhead : ∀ d : Definition, d.IsReadable →
        ∃ c cs, d.text.toList = c :: cs ∧ c ≠ ')' := by
      intro d _
      obtain ⟨cs, hcs⟩ := d.exists_text_eq_cons
      exact ⟨_, cs, hcs, by cases d <;> simp [Definition.firstChar]⟩
    obtain ⟨hstated, -⟩ := Definition.legible_text.intercalate_append_inj hhead ht.isReadable
      hu.isReadable (List.append_cancel_left hrest)
    exact ⟨hname, Table.stated_inj hstated⟩
  · rintro ⟨hname, hcolumns, hprimary, hforeign⟩
    rw [Table.createText_eq, Table.createText_eq, Table.stated, Table.stated, hname, hcolumns,
      hprimary, hforeign]

/-- A table of notes with these columns. -/
def notesOf (columns : List Column) : Table := { Table.empty "notes" with columns }

/-- A name that reads like the rest of its definition and the next one. -/
def longName : String := "id\" INTEGER, \"text"

/-- **No name makes one column look like two**, and a type that is stored in the same way as another
one is not told from it. -/
theorem createText_notes :
    (notesOf [.plain longName .text]).createText ≠
        (notesOf [.plain "id" .integer, .plain "text" .text]).createText ∧
      (notesOf [.plain "id" .bigInt]).createText = (notesOf [.plain "id" .integer]).createText := by
  have hliteral : ∀ names : List (String × ColumnType),
      (notesOf (names.map fun n => .plain n.1 n.2)).IsLiteral := by
    intro names c hc sql
    obtain ⟨n, -, rfl⟩ := List.mem_map.mp hc
    exact DefaultValue.noConfusion
  have hiff := fun ns ms => createText_eq_iff (hliteral ns) (hliteral ms)
  constructor
  · intro h
    have hcolumns := ((hiff [(longName, .text)] [("id", .integer), ("text", .text)]).mp h).2.1
    exact absurd (congrArg List.length hcolumns) (by decide)
  · exact (hiff [("id", .bigInt)] [("id", .integer)]).mpr ⟨rfl, rfl, rfl, rfl⟩

end Tabula.Schema
