/-
# Which statements quote their names

Names are arbitrary texts.  A statement quotes its names (`Ddl.Quotes`) if it is read as these names,
each in one quoted identifier, and a rest that is the same whatever the names are, so that no name can
be taken for another part of the statement.

* `Ddl.spells_text`: the statements that copy no rows do.
* `Ddl.not_quotes_of_copies`: those that copy rows do not, since the SELECT in them is that of a plain
  query, in which names stand as they are.
-/
import Tabula.Proofs.Schema.Definitions
import Tabula.Proofs.Text.Scanning

namespace Tabula.Schema

open Tabula.Text Tabula.Query

/-! ## 1. Names -/

/-- The column under another name. -/
def Column.rename (f : String → String) (c : Column) : Column := { c with name := f c.name }

/-- The foreign key with other names in it. -/
def ForeignKey.rename (f : String → String) (k : ForeignKey) : ForeignKey :=
  { k with columns := k.columns.map f, table := f k.table, references := k.references.map f }

/-- The index with other names in it. -/
def Index.rename (f : String → String) (i : Index) : Index :=
  { i with name := f i.name, columns := i.columns.map fun c => (f c.1, c.2) }

/-- The table with other names in it. -/
def Table.rename (f : String → String) (t : Table) : Table where
  name := f t.name
  columns := t.columns.map (Column.rename f)
  primaryKey := t.primaryKey.map f
  foreignKeys := t.foreignKeys.map (ForeignKey.rename f)
  indexes := t.indexes.map (Index.rename f)

namespace Definition

/-- The definition with other names in it. -/
def rename (f : String → String) : Definition → Definition
  | column name type nullable unique default? => column (f name) type nullable unique default?
  | primaryKey columns => primaryKey (columns.map f)
  | foreignKey k => foreignKey (k.rename f)

/-- The names in a definition, in order. -/
def names : Definition → List String
  | column name _ _ _ _ => [name]
  | primaryKey columns => columns
  | foreignKey k => k.columns ++ k.table :: k.references

end Definition

namespace Ddl

/-- The statement with other names in it. -/
def rename (f : String → String) : Ddl → Ddl
  | createTable t => createTable (t.rename f)
  | createTableAs name source columns => createTableAs (f name) (f source) (columns.map f)
  | copyRows table source columns => copyRows (f table) (f source) (columns.map f)
  | dropTable name => dropTable (f name)
  | renameTable old new => renameTable (f old) (f new)
  | addColumn table c => addColumn (f table) (c.rename f)
  | createIndex table i => createIndex (f table) (i.rename f)

/-- The names in the SELECT that copies rows, in order. -/
def copiedNames (source : String) (columns : List String) : List String :=
  columns.flatMap (fun c => [source, c]) ++ [source, source]

/-- The names in a statement, in order. -/
def names : Ddl → List String
  | createTable t => t.name :: t.stated.flatMap Definition.names
  | createTableAs name source columns => name :: copiedNames source columns
  | copyRows table source columns => table :: columns ++ copiedNames source columns
  | dropTable name => [name]
  | renameTable old new => [old, new]
  | addColumn table c => [table, c.name]
  | createIndex table i => i.name :: table :: i.columns.map (·.1)

/-- Whether a statement copies rows. -/
def copies : Ddl → Bool
  | createTableAs _ _ _ => true
  | copyRows _ _ _ => true
  | _ => false

/-- **The names of a statement are its quoted identifiers, and the rest of it does not depend on
them.** -/
def Quotes (d : Ddl) : Prop :=
  identifiers d.text = d.names ∧ ∀ f, skeleton (d.rename f).text = skeleton d.text

end Ddl

/-! ## 2. Definitions -/

/-- A default that can be told from what follows it. -/
def DefaultValue.IsWhole : DefaultValue → Prop
  | expression e => Text.IsWhole e
  | _ => True

instance (d : DefaultValue) : Decidable d.IsWhole :=
  match d with
  | .expression e => inferInstanceAs (Decidable (Text.IsWhole e))
  | .absent | .null | .bool _ | .integer _ | .float _ | .text _ => inferInstanceAs (Decidable True)

theorem spells_defaultClause {d : DefaultValue} (h : d.IsWhole) :
    Spells isCalm (fun _ => clauseText " DEFAULT " d.sql?) [] := by
  cases hd : d.sql? with
  | none => exact spells_word (by decide)
  | some sql =>
    rcases DefaultValue.sql?_cases hd with hword | ⟨s, rfl⟩ | ⟨e, rfl, rfl⟩
    · exact spells_default_number hword
    · exact spells_default_literal s
    · exact spells_default_expression h

theorem Column.spells_definition {c : Column} (h : c.default.IsWhole) (inline : Bool) :
    Spells isCalm (fun f => (c.rename f).definition inline) [c.name] := by
  have htext : ∀ f, (c.rename f).definition inline = identifier (f c.name) ++ (" " ++ (c.type.sql ++
      ((if c.nullable then "" else " NOT NULL") ++ ((if inline && c.unique then " UNIQUE" else "") ++
        clauseText " DEFAULT " c.default.sql?)))) := by
    intro f
    simp only [← String.append_assoc]
    rfl
  have htype : matchedBy 0 c.type.sql.toList = some 0 := by cases c.type <;> decide
  have hnullable : matchedBy 0 (if c.nullable then "" else " NOT NULL").toList = some 0 := by
    cases c.nullable <;> decide
  have hunique : matchedBy 0 (if inline && c.unique then " UNIQUE" else "").toList = some 0 := by
    cases inline && c.unique <;> decide
  have hclauses := ((spells_defaultClause h).word_append hunique).word_append hnullable
  simp only [htext]
  exact (spells_identifier c.name).link " " (hclauses.word_append htype) (by decide) (by decide)

theorem isInert_actionClause {event : String} (h : IsInert event) (e : KeyAction) :
    IsInert (e.clause event) := by
  have hsql : IsInert e.sql := by cases e <;> decide
  unfold KeyAction.clause
  split
  · decide
  · exact (((by decide : IsInert " ON ").append h).append (by decide)).append hsql

/-- A foreign key may end with the word that an expression follows. -/
theorem ForeignKey.spells_definition (k : ForeignKey) : Spells closes
    (fun f => (k.rename f).definition) (k.columns ++ (k.table :: k.references)) := by
  have htext : ∀ f, (k.rename f).definition = "FOREIGN KEY (" ++ (identifierList (k.columns.map f) ++
      (") REFERENCES " ++ (identifier (f k.table) ++ (" (" ++ (identifierList (k.references.map f) ++
        (")" ++ (k.onDelete.clause "DELETE" ++ k.onUpdate.clause "UPDATE"))))))) := by
    intro f
    simp only [← String.append_assoc]
    rfl
  have hactions : IsInert (k.onDelete.clause "DELETE" ++ k.onUpdate.clause "UPDATE") :=
    (isInert_actionClause (by decide) _).append (isInert_actionClause (by decide) _)
  have hreferences := (spells_identifierList k.references).link ")" (spells_last_word hactions)
    (by decide) (by decide)
  have htable := (spells_identifier k.table).link " (" hreferences (by decide) (by decide)
  have hcolumns := (spells_identifierList k.columns).link ") REFERENCES " htable
    (by decide) (by decide)
  simp only [htext]
  simpa using hcolumns.word_append (w := "FOREIGN KEY (") (by decide)

theorem isCalm_of_closes {c : Char} (h : closes c) : isCalm c := by
  have hc : c = ',' ∨ c = ')' := by simpa [closes] using h
  rcases hc with rfl | rfl <;> decide

namespace Table

theorem stated_rename (t : Table) (f : String → String) :
    (t.rename f).stated = t.stated.map (Definition.rename f) := by
  have hcolumns : Column.stated ∘ Column.rename f = Definition.rename f ∘ Column.stated := rfl
  have hkeys : Definition.foreignKey ∘ ForeignKey.rename f =
      Definition.rename f ∘ Definition.foreignKey := rfl
  unfold stated rename
  by_cases h : t.primaryKey = [] <;> simp [h, hcolumns, hkeys, Definition.rename]

theorem spells_definition {t : Table} (h : ∀ c ∈ t.columns, c.default.IsWhole) {d : Definition}
    (hd : d ∈ t.stated) : Spells closes (fun f => (d.rename f).text) d.names := by
  simp only [stated, List.mem_append, List.mem_map] at hd
  rcases hd with (⟨c, hc, rfl⟩ | hd) | ⟨k, -, rfl⟩
  · have htext : (fun f => (c.stated.rename f).text) = fun f => (c.rename f).definition true :=
      funext fun f => ((c.rename f).definition_eq_text).symm
    rw [htext]
    exact (Column.spells_definition (h c hc) true).mono fun _ => isCalm_of_closes
  · split at hd
    · exact absurd hd List.not_mem_nil
    · obtain rfl := List.mem_singleton.mp hd
      have hlist : Spells closes (fun f => identifierList (t.primaryKey.map f) ++ ")") t.primaryKey :=
        (spells_identifierList t.primaryKey).append_word ")" closes (by decide) (by decide)
      have htext : (fun f => ((Definition.primaryKey t.primaryKey).rename f).text) =
          fun f => "PRIMARY KEY (" ++ (identifierList (t.primaryKey.map f) ++ ")") :=
        funext fun f => String.append_assoc
      rw [htext]
      exact hlist.word_append (by decide)
  · exact ForeignKey.spells_definition k

theorem spells_createText {t : Table} (h : ∀ c ∈ t.columns, c.default.IsWhole) :
    Spells isCalm (fun f => (t.rename f).createText)
      (t.name :: t.stated.flatMap Definition.names) := by
  have htext : ∀ f, (t.rename f).createText = "CREATE TABLE " ++ (identifier (f t.name) ++ (" (" ++
      (String.intercalate ", " (t.stated.map fun d => (d.rename f).text) ++ ")"))) := by
    intro f
    have hstated : (t.rename f).stated.map Definition.text =
        t.stated.map fun d => (d.rename f).text := by
      rw [stated_rename, List.map_map]
      rfl
    rw [createText_eq, hstated]
    simp only [← String.append_assoc]
    rfl
  have hitems := Spells.intercalate (p := closes) (by decide) fun d hd => spells_definition h hd
  have hlist := hitems.append_word ")" isCalm (by decide) (by decide)
  have hname := (spells_identifier t.name).link " (" hlist (by decide) (by decide)
  simp only [htext]
  simpa using hname.word_append (w := "CREATE TABLE ") (by decide)

end Table

/-! ## 3. Statements that copy no rows -/

theorem Index.spells_createIndexText (table : String) (i : Index) :
    Spells isCalm (fun f => createIndexText (f table) (i.rename f))
      (i.name :: table :: i.columns.map (·.1)) := by
  have htext : ∀ f, createIndexText (f table) (i.rename f) = "CREATE " ++
      ((if i.unique then "UNIQUE " else "") ++ ("INDEX IF NOT EXISTS " ++ (identifier (f i.name) ++
        (" ON " ++ (identifier (f table) ++ (" (" ++ (String.intercalate ", "
          (i.columns.map fun c => identifier (f c.1) ++ (" " ++ c.2.text)) ++ ")"))))))) := by
    intro f
    unfold createIndexText rename
    simp only [List.map_map, Function.comp_def, String.append_assoc]
  have hunique : matchedBy 0 (if i.unique then "UNIQUE " else "").toList = some 0 := by
    cases i.unique <;> decide
  have hcolumn : ∀ c ∈ i.columns,
      Spells isCalm (fun f => identifier (f c.1) ++ (" " ++ c.2.text)) [c.1] := by
    intro c _
    have hdirection : matchedBy 0 c.2.text.toList = some 0 := by cases c.2 <;> decide
    exact (spells_identifier c.1).link " " (spells_word hdirection) (by decide) (by decide)
  have hcolumns := (Spells.intercalate (by decide) hcolumn).append_word ")" isCalm
    (by decide) (by decide)
  have htable := (spells_identifier table).link " (" hcolumns (by decide) (by decide)
  have hname := (spells_identifier i.name).link " ON " htable (by decide) (by decide)
  have hall := ((hname.word_append (w := "INDEX IF NOT EXISTS ") (by decide)).word_append
    hunique).word_append (w := "CREATE ") (by decide)
  have hnames : i.columns.map (·.1) = i.columns.flatMap fun c => [c.1] := List.map_eq_flatMap
  simp only [htext, hnames]
  simpa using hall

namespace Ddl

/-- A statement whose defaults can be told from what follows them. -/
def IsWhole : Ddl → Prop
  | createTable t => ∀ c ∈ t.columns, c.default.IsWhole
  | addColumn _ c => c.default.IsWhole
  | _ => True

/-- **A statement that copies no rows spells its names.** -/
theorem spells_text {d : Ddl} (h : d.IsWhole) (hd : d.copies = false) :
    Spells isCalm (fun f => (d.rename f).text) d.names := by
  cases d with
  | createTable t => exact Table.spells_createText h
  | createTableAs => exact Bool.noConfusion hd
  | copyRows => exact Bool.noConfusion hd
  | dropTable name => exact (spells_identifier name).word_append (by decide)
  | renameTable old new =>
    have htext : (fun f => ((renameTable old new).rename f).text) = fun f => "ALTER TABLE " ++
        (identifier (f old) ++ (" RENAME TO " ++ identifier (f new))) := by
      funext f
      simp only [← String.append_assoc]
      rfl
    rw [htext]
    have hnames := (spells_identifier old).link " RENAME TO " (spells_identifier new)
      (by decide) (by decide)
    exact hnames.word_append (by decide)
  | addColumn table c =>
    have htext : (fun f => ((addColumn table c).rename f).text) = fun f => "ALTER TABLE " ++
        (identifier (f table) ++ (" ADD COLUMN " ++ (c.rename f).definition false)) := by
      funext f
      simp only [← String.append_assoc]
      rfl
    rw [htext]
    have htable := (spells_identifier table).link " ADD COLUMN "
      (Column.spells_definition h false) (by decide) (by decide)
    exact htable.word_append (by decide)
  | createIndex table i => exact i.spells_createIndexText table

theorem rename_id (d : Ddl) : d.rename id = d := by
  have hcolumn : Column.rename id = id := rfl
  have hkey : ForeignKey.rename id = id := by
    funext k
    simp [ForeignKey.rename]
  have hindex : Index.rename id = id := by
    funext i
    simp [Index.rename]
  cases d <;> simp [rename, Table.rename, hcolumn, hkey, hindex]

/-- So it quotes them. -/
theorem quotes_of_not_copies {d : Ddl} (h : d.IsWhole) (hd : d.copies = false) : d.Quotes := by
  have hspells := spells_text h hd
  have hidentifiers := hspells.identifiers_eq id
  rw [rename_id, List.map_id] at hidentifiers
  refine ⟨hidentifiers, fun f => ?_⟩
  have hskeleton := hspells.skeleton_eq f id
  rwa [rename_id] at hskeleton

/-! ## 4. Statements that copy rows -/

/-- The columns of the SELECT that copies rows. -/
def copiedColumnsText (source : String) (columns : List String) : String :=
  if columns = [] then "*"
  else String.intercalate ", " (columns.map fun c => source ++ "." ++ c)

theorem text_single (source : String) : (JoinGraph.single source).text = source := by
  have hgroups : (JoinGraph.single source).groups = [] := rfl
  rw [JoinGraph.text, hgroups]
  exact String.append_empty

theorem resolveOrder_empty (source : String) :
    resolveOrder source "" false = source ++ ".rowid ASC" := by
  have htrim : trim "" = "" := by decide
  simp [resolveOrder, htrim, SortKey.text, rowid, ColumnRef.text, rowidColumn, Direction.text,
    String.append_assoc]

/-- The names stand in it as they are. -/
theorem text_copySelect (source : String) (columns : List String) :
    (copySelect source columns).text = "SELECT " ++ (copiedColumnsText source columns ++ (" FROM " ++
      (source ++ (" ORDER BY " ++ (source ++ ".rowid ASC"))))) := by
  have hquery : (Request.ofTable .select source).toEngine =
      ⟨source, .single source, .plain .none, some (source ++ ".rowid ASC"), .all⟩ := by
    rw [← resolveOrder_empty]
    rfl
  have hcolumns : (copySelect source columns).columnsText = copiedColumnsText source columns := by
    simp [Select.columnsText, copySelect, Projection.columnTexts, copiedColumnsText, ColumnRef.text]
  have horder : source ++ ".rowid ASC" ≠ "" := by simp
  unfold Select.text
  rw [hcolumns]
  simp [copySelect, Select.ofQuery, hquery, text_single, clause, horder, Filter.text, Selection.none,
    Page.text, Page.all, String.append_assoc]

/-- The words in it. -/
def selectWords : List String := ["SELECT ", "*", ".", ", ", " FROM ", " ORDER BY ", ".rowid ASC"]

/-- Its characters are those of the words and of the names. -/
theorem forall_mem_copySelect {P : Char → Prop} {source : String} {columns : List String}
    (hwords : ∀ w ∈ selectWords, ∀ c ∈ w.toList, P c)
    (hsource : ∀ c ∈ source.toList, P c) (hcolumns : ∀ s ∈ columns, ∀ c ∈ s.toList, P c) :
    ∀ c ∈ (copySelect source columns).text.toList, P c := by
  have hlist : ∀ c ∈ (copiedColumnsText source columns).toList, P c := by
    intro c hc
    unfold copiedColumnsText at hc
    split at hc
    · exact hwords "*" (by decide) c hc
    · rcases mem_intercalate hc with hc | ⟨t, ht, hc⟩
      · exact hwords ", " (by decide) c hc
      · obtain ⟨s, hs, rfl⟩ := List.mem_map.mp ht
        simp only [String.toList_append, List.mem_append] at hc
        rcases hc with (hc | hc) | hc
        · exact hsource c hc
        · exact hwords "." (by decide) c hc
        · exact hcolumns s hs c hc
  intro c hc
  rw [text_copySelect] at hc
  simp only [String.toList_append, List.mem_append] at hc
  rcases hc with hc | hc | hc | hc | hc | hc | hc
  · exact hwords "SELECT " (by decide) c hc
  · exact hlist c hc
  · exact hwords " FROM " (by decide) c hc
  · exact hsource c hc
  · exact hwords " ORDER BY " (by decide) c hc
  · exact hsource c hc
  · exact hwords ".rowid ASC" (by decide) c hc

/-- A statement that copies rows ends with the SELECT. -/
theorem exists_copySelect {d : Ddl} (hd : d.copies = true) :
    ∃ (head : (String → String) → String) (names : List String) (source : String)
      (columns : List String), Spells isCalm head names ∧
        ∀ f, (d.rename f).text = head f ++ (copySelect (f source) (columns.map f)).text := by
  cases d with
  | createTableAs name source columns =>
    have hname := (spells_identifier name).append_word " AS " isCalm (by decide) (by decide)
    refine ⟨_, _, source, columns, hname.word_append (w := "CREATE TABLE ") (by decide), fun f => ?_⟩
    simp only [← String.append_assoc]
    rfl
  | copyRows table source columns =>
    have hcolumns := (spells_identifierList columns).append_word ") " isCalm
      (by decide) (by decide)
    have htable := (spells_identifier table).link " (" hcolumns (by decide) (by decide)
    refine ⟨_, _, source, columns, htable.word_append (w := "INSERT INTO ") (by decide), fun f => ?_⟩
    simp only [← String.append_assoc]
    rfl
  | createTable | dropTable | renameTable | addColumn | createIndex => exact Bool.noConfusion hd

/-- **A statement that copies rows does not quote its names.** -/
theorem not_quotes_of_copies {d : Ddl} (hd : d.copies = true) : ¬d.Quotes := by
  rintro ⟨-, hskeleton⟩
  obtain ⟨head, names, source, columns, hspells, htext⟩ := exists_copySelect hd
  obtain ⟨cs, hcs⟩ := hspells.skeleton_append
  -- With one name in all places that opens nothing, the SELECT is part of the rest.
  have hconst : ∀ s, IsInert s →
      cs ++ (copySelect s (columns.map fun _ => s)).text.toList = skeleton d.text := by
    intro s hs
    have hinert : IsInert (copySelect s (columns.map fun _ => s)).text := by
      have hwords : ∀ w ∈ selectWords, IsInert w := by decide
      refine forall_mem_copySelect hwords hs fun t ht => ?_
      obtain ⟨-, -, rfl⟩ := List.mem_map.mp ht
      exact hs
    have hcalm : Begins isCalm (copySelect s (columns.map fun _ => s)).text.toList := by
      intro c hc
      have hquote := (hinert c (List.mem_of_head? hc)).1
      simpa [isCalm] using hquote
    rw [← hskeleton fun _ => s, htext, hcs _ _ hcalm, skeleton_eq_self hinert]
  have hsame := List.append_cancel_left
    ((hconst "" (by decide)).trans (hconst "?" (by decide)).symm)
  have hmem : '?' ∈ (copySelect "?" (columns.map fun _ => "?")).text.toList := by
    rw [text_copySelect]
    simp
  have hplain : ∀ c ∈ (copySelect "" (columns.map fun _ => "")).text.toList, c ≠ '?' := by
    have hwords : ∀ w ∈ selectWords, '?' ∉ w.toList := by decide
    refine forall_mem_copySelect (fun w hw c hc => ne_of_mem_of_not_mem hc (hwords w hw)) (by simp)
      fun t ht => ?_
    obtain ⟨-, -, rfl⟩ := List.mem_map.mp ht
    simp
  rw [← hsame] at hmem
  exact hplain _ hmem rfl

theorem quotes_iff {d : Ddl} (h : d.IsWhole) : d.Quotes ↔ d.copies = false := by
  constructor
  · intro hquotes
    exact Bool.eq_false_iff.mpr fun hd => not_quotes_of_copies hd hquotes
  · exact quotes_of_not_copies h

end Ddl

end Tabula.Schema
