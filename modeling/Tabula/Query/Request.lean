/-
# Requests

A request says what is wanted, whether or not the engine can say it: which tables, which rows, in
what order, how many and from which end.  `Request.toEngine` puts it into the forms that the engine
takes.  What the engine cannot say outside goes into a subquery over row identifiers: the last
rows of a selection, and for mutations any limit, offset or join.
-/
import Tabula.Query.EngineQuery
import Tabula.Query.Order

namespace Tabula.Query

/-- What is done with the rows. -/
inductive Verb where
  | select
  | update
  | delete
deriving DecidableEq, Repr

/-- Whether rows are changed. -/
def Verb.isMutation : Verb → Bool
  | select => false
  | update => true
  | delete => true

/-- What is wanted.  A limit of zero means no limit. -/
structure Request where
  verb : Verb
  source : JoinGraph
  selection : Selection
  order : String
  limit : UInt64
  offset : UInt64
  last : Bool
deriving DecidableEq, Repr

namespace Request

/-- All rows of a table. -/
def ofTable (verb : Verb) (table : String) : Request :=
  ⟨verb, .single table, .none, "", 0, 0, false⟩

/-- The base table. -/
def table (r : Request) : String := r.source.base

/-- Whether the request needs a subquery. -/
def needsSubquery (r : Request) : Bool :=
  r.last || (r.verb.isMutation && (0 < r.limit || 0 < r.offset || !r.source.isSingle))

/-- The order of the rows that a statement gives; a mutation gives none. -/
def outerOrder (r : Request) : Option String :=
  if r.verb.isMutation then none else some (resolveOrder r.table r.order false)

/-- The subquery that picks the rows. -/
def rowidQuery (r : Request) : RowidQuery where
  source := r.source
  selection := r.selection
  order := resolveOrder r.table r.order r.last
  page := .of r.limit r.offset

/-- The request in the forms that the engine takes.  A mutation with a subquery names its base
table only; its joins live in the subquery. -/
def toEngine (r : Request) : EngineQuery :=
  if r.needsSubquery then
    { table := r.table
      source := if r.verb.isMutation then .single r.table else r.source
      filter := .rowidIn r.rowidQuery
      order := r.outerOrder
      page := .all }
  else
    { table := r.table
      source := r.source
      filter := .plain r.selection
      order := r.outerOrder
      page := .of r.limit r.offset }

/-- A request with another condition has the same subquery, but for its condition. -/
theorem rowidQuery_withSelection (r : Request) (s : Selection) :
    { r with selection := s }.rowidQuery = { r.rowidQuery with selection := s } := by
  simp only [rowidQuery, table]

/-- A request with another condition differs in its filter only. -/
theorem toEngine_withSelection (r : Request) (s : Selection) :
    { r with selection := s }.toEngine =
      { r.toEngine with filter := { r with selection := s }.toEngine.filter } := by
  have hneeds : { r with selection := s }.needsSubquery = r.needsSubquery := rfl
  unfold toEngine
  rw [hneeds]
  split <;> rfl

end Request

end Tabula.Query
