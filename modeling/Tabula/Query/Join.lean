/-
# Joins

A join graph starts from one table and grows by edges.  Each edge brings in a table, its partner,
and hangs it on another one, its anchor.  The FROM text lists the base table and then each partner
once, at the place of its first edge; the conditions of all edges with that partner go into its
one ON clause.
-/
import Tabula.Query.Predicate

namespace Tabula.Query

/-- How two tables are joined. -/
inductive JoinKind where
  | natural
  | left
  | inner
  | outer
  | leftOuter
  | cross
deriving DecidableEq, Repr

namespace JoinKind

/-- The keywords of a join. -/
def text : JoinKind → String
  | natural => "NATURAL JOIN"
  | left => "LEFT JOIN"
  | inner => "INNER JOIN"
  | outer => "FULL OUTER JOIN"
  | leftOuter => "LEFT OUTER JOIN"
  | cross => "CROSS JOIN"

/-- A natural join has no ON clause. -/
def hasCondition (k : JoinKind) : Bool := k != .natural

end JoinKind

/-- A join of a referenced column, the parent, with a referencing one, the child. -/
structure Join where
  kind : JoinKind
  parent : ColumnRef
  child : ColumnRef
deriving DecidableEq, Repr

/-- A join seen from the graph: the side it brings in and the side it hangs on. -/
structure JoinEdge where
  kind : JoinKind
  partner : ColumnRef
  anchor : ColumnRef
deriving DecidableEq, Repr

/-- The condition of an edge as SQL. -/
def JoinEdge.condition (e : JoinEdge) : String := e.partner.text ++ "=" ++ e.anchor.text

/-- A base table and the edges added to it, in order. -/
structure JoinGraph where
  base : String
  tables : List String
  edges : List JoinEdge
deriving DecidableEq, Repr

namespace JoinGraph

/-- A table on its own. -/
def single (base : String) : JoinGraph := ⟨base, [base], []⟩

/-- Whether nothing is joined. -/
def isSingle (g : JoinGraph) : Bool := g.edges.isEmpty

/-- Whether a table is part of the graph. -/
def contains (g : JoinGraph) (table : String) : Bool := g.tables.contains table

/-- A join as an edge.  The partner is the child, unless only the parent is new. -/
def orient (g : JoinGraph) (j : Join) : JoinEdge :=
  if !g.contains j.parent.table && g.contains j.child.table then ⟨j.kind, j.parent, j.child⟩
  else ⟨j.kind, j.child, j.parent⟩

/-- Adds an edge. -/
def addEdge (g : JoinGraph) (e : JoinEdge) : JoinGraph :=
  { g with
    tables := if g.contains e.partner.table then g.tables else g.tables ++ [e.partner.table]
    edges := g.edges ++ [e] }

/-- Adds a join. -/
def add (g : JoinGraph) (j : Join) : JoinGraph := g.addEdge (g.orient j)

/-- Adds joins in order, to a base table. -/
def ofJoins (base : String) (joins : List Join) : JoinGraph := joins.foldl add (single base)

/-- The edges that bring in one partner, the first of them apart: it decides how the partner is
joined. -/
structure Group where
  first : JoinEdge
  others : List JoinEdge
deriving DecidableEq, Repr

/-- The table that a group brings in. -/
def Group.partner (p : Group) : String := p.first.partner.table

/-- Puts an edge to the others of its partner, or begins a new group. -/
def insertEdge : List Group → JoinEdge → List Group
  | [], e => [⟨e, []⟩]
  | p :: ps, e =>
    if p.partner = e.partner.table then ⟨p.first, p.others ++ [e]⟩ :: ps
    else p :: insertEdge ps e

/-- The edges grouped by partner, in the order of first edges. -/
def groups (g : JoinGraph) : List Group := g.edges.foldl insertEdge []

/-- One JOIN of the FROM text. -/
def Group.text (p : Group) : String :=
  " " ++ p.first.kind.text ++ " " ++ p.partner ++
    if p.first.kind.hasCondition then
      " ON " ++ String.intercalate " AND " ((p.first :: p.others).map JoinEdge.condition)
    else ""

/-- The FROM text. -/
def text (g : JoinGraph) : String := g.base ++ String.join (g.groups.map Group.text)

end JoinGraph

/-- Columns to select from one table. -/
structure Projection where
  table : String
  columns : List String
  distinct : Bool
deriving DecidableEq, Repr

/-- The columns qualified by their table. -/
def Projection.columnTexts (p : Projection) : List String :=
  p.columns.map fun c => (ColumnRef.mk p.table c).text

end Tabula.Query
