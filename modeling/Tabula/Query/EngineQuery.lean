/-
# Queries as the engine takes them

The engine has no LIMIT on UPDATE or DELETE, no joins in them, and no way to ask for the last rows.
What it does have is a filter by row identifier: `t.rowid IN (SELECT t.rowid FROM ...)`.  So an
engine query filters either by the caller's selection or by the identifiers that a subquery picks,
and in the second case selection, order and page live in the subquery.
-/
import Tabula.Query.Join

namespace Tabula.Query

open Tabula.Decimal

/-- Which of the rows, in their order, are meant.  A negative limit is none, and an offset is
never written without a limit before it. -/
structure Page where
  limit : Option Int
  offset : Option UInt64
deriving DecidableEq, Repr

namespace Page

/-- All rows. -/
def all : Page := ⟨none, none⟩

/-- The limit that means no limit. -/
def noLimit : Int := -1

/-- The page for a number of rows, zero meaning all of them, after a number of rows to skip.  The
engine counts rows in 64 bits with sign; a larger limit is cut to what it can count. -/
def of (limit offset : UInt64) : Page where
  limit :=
    if 0 < limit then some (min (limit.toNat : Int) Int64.maxValue.toInt)
    else if 0 < offset then some noLimit
    else none
  offset := if 0 < offset then some offset else none

/-- The LIMIT and OFFSET clauses, each with a space in front. -/
def text (p : Page) : String :=
  (match p.limit with
    | some n => " LIMIT " ++ intText n
    | none => "") ++
  (match p.offset with
    | some n => " OFFSET " ++ natText n.toNat
    | none => "")

end Page

/-- A keyword and what it introduces, with a space in front of the keyword; nothing at all when
there is nothing to introduce. -/
def clause (keyword body : String) : String :=
  if body = "" then "" else " " ++ keyword ++ " " ++ body

/-- A subquery that picks row identifiers of the base table. -/
structure RowidQuery where
  source : JoinGraph
  selection : Selection
  order : String
  page : Page
deriving DecidableEq, Repr

/-- The subquery as SQL. -/
def RowidQuery.text (q : RowidQuery) : String :=
  "SELECT " ++ (rowid q.source.base).text ++ " FROM " ++ q.source.text ++
    clause "WHERE" q.selection.text ++ " ORDER BY " ++ q.order ++ q.page.text

/-- Which rows a query is about. -/
inductive Filter where
  | plain (selection : Selection)
  | rowidIn (query : RowidQuery)
deriving DecidableEq, Repr

namespace Filter

/-- The WHERE text; empty for all rows. -/
def text : Filter → String
  | plain s => s.text
  | rowidIn q => (rowid q.source.base).text ++ " IN (" ++ q.text ++ ")"

/-- The arguments of the WHERE text. -/
def args : Filter → List String
  | plain s => s.args
  | rowidIn q => q.selection.args

/-- Whether the filter is a subquery. -/
def isCompound : Filter → Bool
  | plain _ => false
  | rowidIn _ => true

end Filter

/-- A query in the forms that the engine takes.  A mutation has no order. -/
structure EngineQuery where
  table : String
  source : JoinGraph
  filter : Filter
  order : Option String
  page : Page
deriving DecidableEq, Repr

end Tabula.Query
