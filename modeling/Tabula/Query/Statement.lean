/-
# Statements

A statement is a text with placeholders and the parameters that they stand for, in order.  The four
kinds of statement are records of what they are made of, each with one function that writes it.
Values never enter a text: a value that is not NULL becomes a placeholder and a parameter.
-/
import Tabula.Query.Error
import Tabula.Query.EngineQuery

namespace Tabula.Query

/-- A finished statement. -/
structure Statement where
  sql : String
  params : List String
deriving DecidableEq, Repr

/-- The place that a stored value takes in a text: NULL itself, or a placeholder. -/
def slot (v : Value) : String :=
  match v.parameter? with
  | some _ => "?"
  | none => "NULL"

/-! ## 1. SELECT -/

/-- The parts of a SELECT.  Without projections it gives all columns. -/
structure Select where
  query : EngineQuery
  projections : List Projection
  groupBy : List String
  having : Selection
deriving DecidableEq, Repr

namespace Select

/-- All columns of the rows of a query. -/
def ofQuery (q : EngineQuery) : Select := ⟨q, [], [], .none⟩

/-- The columns that are selected. -/
def columnsText (s : Select) : String :=
  let columns := s.projections.flatMap Projection.columnTexts
  if columns = [] then "*" else String.intercalate ", " columns

/-- The text, with its clauses in their fixed order. -/
def text (s : Select) : String :=
  "SELECT " ++ (if s.projections.any Projection.distinct then "DISTINCT " else "") ++
    s.columnsText ++ " FROM " ++ s.query.source.text ++
    clause "WHERE" s.query.filter.text ++
    (if s.groupBy = [] then "" else " GROUP BY " ++ String.intercalate ", " s.groupBy) ++
    clause "HAVING" s.having.text ++
    clause "ORDER BY" (s.query.order.getD "") ++
    s.query.page.text

/-- The parameters: those of WHERE, then those of HAVING. -/
def params (s : Select) : List String :=
  s.query.filter.args ++ if s.having.isNone then [] else s.having.args

/-- The statement as it is written. -/
def written (s : Select) : Statement := ⟨s.text, s.params⟩

/-- The statement; a condition on groups needs groups. -/
def statement (s : Select) : Except QueryError Statement :=
  if !s.having.isNone && s.groupBy.isEmpty then .error .havingWithoutGroupBy
  else .ok s.written

end Select

/-! ## 2. INSERT -/

/-- Columns that are never inserted: the engine or the layer above keeps them. -/
def keptColumns : List String := ["rowid", "created_at", "modified_at"]

/-- Whether two names differ at most in the case of ASCII letters. -/
def sameIgnoringCase (a b : String) : Bool :=
  a.toList.map Char.toLower == b.toList.map Char.toLower

/-- Whether a column may be inserted. -/
def isInsertable (column : String) : Bool := !keptColumns.any (sameIgnoringCase column)

/-- The parts of an INSERT: a table, and the columns with their values. -/
structure Insert where
  table : String
  cells : List (String × Value)

namespace Insert

/-- An INSERT without columns. -/
def into (table : String) : Insert := ⟨table, []⟩

/-- Adds columns with their values; those that are never inserted are left out. -/
def row (i : Insert) (columns : List String) (values : List Value) : Except QueryError Insert :=
  (pairUp .columnsValues columns values).map fun cells =>
    { i with cells := i.cells ++ cells.filter fun c => isInsertable c.1 }

/-- The statement. -/
def statement (i : Insert) : Statement where
  sql := "INSERT INTO " ++ i.table ++ " (" ++ String.intercalate ", " (i.cells.map (·.1)) ++
    ") VALUES (" ++ String.intercalate ", " (i.cells.map fun c => slot c.2) ++ ")"
  params := i.cells.filterMap fun c => c.2.parameter?

end Insert

/-! ## 3. UPDATE and DELETE -/

/-- The parts of an UPDATE. -/
structure Update where
  query : EngineQuery
  assignments : List (String × Value)

namespace Update

/-- An UPDATE that sets nothing. -/
def ofQuery (q : EngineQuery) : Update := ⟨q, []⟩

/-- Adds columns with the values to set. -/
def set (u : Update) (columns : List String) (values : List Value) : Except QueryError Update :=
  (pairUp .columnsValues columns values).map fun cells =>
    { u with assignments := u.assignments ++ cells }

/-- The statement.  Parameters of the assignments come first; those of WHERE only with it. -/
def statement (u : Update) : Statement where
  sql := "UPDATE " ++ u.query.table ++ " SET " ++
    String.intercalate "," (u.assignments.map fun a => a.1 ++ "=" ++ slot a.2) ++
    clause "WHERE" u.query.filter.text
  params := (u.assignments.filterMap fun a => a.2.parameter?) ++
    if u.query.filter.text = "" then [] else u.query.filter.args

end Update

/-- The DELETE of the rows of a query. -/
def EngineQuery.deleteStatement (q : EngineQuery) : Statement where
  sql := "DELETE FROM " ++ q.table ++ clause "WHERE" q.filter.text
  params := if q.filter.text = "" then [] else q.filter.args

end Tabula.Query
