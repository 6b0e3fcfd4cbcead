/-
# Sessions

A session gathers one request over a base table, runs it, and forgets it.  Running goes through an
engine, which is any pair of functions from a statement and a state to an answer and the next
state; the session itself holds no data.

`get` runs the request and resets the session whatever comes of it, `peek` keeps the session, and
`set` turns the request into a mutation and resets the session.
-/
import Tabula.Query.Request
import Tabula.Query.Statement

namespace Tabula.Query

/-! ## 1. The state of a session -/

/-- A request in the making.  A predicate or order that was never asked for is absent. -/
structure Session where
  table : String
  graph : JoinGraph
  projections : List Projection
  predicate : Option Predicate
  order : Option Order
  groupBy : List String
  having : Option Predicate
  limit : UInt64
  offset : UInt64
  last : Bool
deriving DecidableEq, Repr

/-- The rows that a session had selected, to be changed. -/
structure Mutation where
  graph : JoinGraph
  selection : Selection
  limit : UInt64
  offset : UInt64
deriving DecidableEq, Repr

namespace Session

/-- A session that asks for every row of a table. -/
def fresh (table : String) : Session :=
  ⟨table, .single table, [], none, none, [], none, 0, 0, false⟩

/-- Forgets everything but the base table. -/
def reset (s : Session) : Session := fresh s.table

/-- Replaces the condition on rows. -/
def find (s : Session) (calls : List PredicateCall) : Session :=
  { s with predicate := some (.ofCalls s.table calls) }

/-- Replaces the condition on groups. -/
def haveGroups (s : Session) (calls : List PredicateCall) : Session :=
  { s with having := some (.ofCalls s.table calls) }

/-- Replaces the order. -/
def orderBy (s : Session) (order : Order) : Session := { s with order := some order }

/-- Adds a join, and the columns to select from the table that it brings in. -/
def addJoin (s : Session) (join : Join) (projection : Projection) : Session :=
  { s with graph := s.graph.add join, projections := s.projections ++ [projection] }

/-- Adds columns to select. -/
def project (s : Session) (projection : Projection) : Session :=
  { s with projections := s.projections ++ [projection] }

/-- Adds a column to group by. -/
def addGroup (s : Session) (column : ColumnRef) : Session :=
  { s with groupBy := s.groupBy ++ [column.text] }

/-- Asks for so many rows; zero means all. -/
def withLimit (s : Session) (n : UInt64) : Session := { s with limit := n }

/-- Skips so many rows. -/
def withOffset (s : Session) (n : UInt64) : Session := { s with offset := n }

/-- Asks for the last rows of the order. -/
def withLast (s : Session) (n : UInt64) : Session := { s with limit := n, last := true }

/-! ## 2. Statements of a session -/

/-- The condition on rows. -/
def selection (s : Session) : Selection :=
  match s.predicate with
  | some p => p.selection
  | none => .none

/-- The condition on groups. -/
def havingSelection (s : Session) : Selection :=
  match s.having with
  | some p => p.selection
  | none => .none

/-- The request as it stands. -/
def request (s : Session) : Request where
  verb := .select
  source := s.graph
  selection := s.selection
  order := (s.order.getD .empty).text
  limit := s.limit
  offset := s.offset
  last := s.last

/-- The SELECT of the request as it stands. -/
def selectStatement (s : Session) : Except QueryError Statement :=
  { query := s.request.toEngine
    projections := s.projections
    groupBy := s.groupBy
    having := s.havingSelection : Select }.statement

/-- The INSERT of one row into the base table. -/
def insertStatement (s : Session) (columns : List String) (values : List Value) :
    Except QueryError Statement :=
  ((Insert.into s.table).row columns values).map Insert.statement

theorem insertStatement_eq (s : Session) (columns : List String) (values : List Value) :
    s.insertStatement columns values = (pairUp .columnsValues columns values).map fun cells =>
      (Insert.mk s.table (cells.filter fun c => isInsertable c.1)).statement := by
  unfold insertStatement Insert.row
  cases pairUp .columnsValues columns values <;> rfl

/-- The rows selected so far, to be changed, and the session without them.  An order is dropped, and
so is the wish for the last rows. -/
def set (s : Session) : Mutation × Session :=
  (⟨s.graph, s.selection, s.limit, s.offset⟩, s.reset)

end Session

namespace Mutation

/-- The request of a mutation. -/
def request (m : Mutation) (verb : Verb) : Request :=
  ⟨verb, m.graph, m.selection, "", m.limit, m.offset, false⟩

/-- The UPDATE of the selected rows. -/
def updateStatement (m : Mutation) (columns : List String) (values : List Value) :
    Except QueryError Statement :=
  ((Update.ofQuery (m.request .update).toEngine).set columns values).map Update.statement

theorem updateStatement_eq (m : Mutation) (columns : List String) (values : List Value) :
    m.updateStatement columns values = (pairUp .columnsValues columns values).map fun cells =>
      (Update.mk (m.request .update).toEngine cells).statement := by
  unfold updateStatement Update.set
  cases pairUp .columnsValues columns values <;> rfl

/-- The DELETE of the selected rows. -/
def deleteStatement (m : Mutation) : Statement :=
  (m.request .delete).toEngine.deleteStatement

end Mutation

/-! ## 3. Running statements -/

/-- Whatever runs statements: it answers a query with rows and a change with a count. -/
structure Engine (σ ε ρ : Type) where
  query : Statement → σ → Except ε ρ × σ
  execute : Statement → σ → Except ε ρ × σ

/-- Why a run gives no answer: there is no statement, or the engine failed. -/
inductive RunError (ε : Type) where
  | query (e : QueryError)
  | engine (e : ε)

/-- Hands a statement, if there is one, to a function of the engine. -/
def runStatement {σ ε ρ : Type} (run : Statement → σ → Except ε ρ × σ)
    (statement : Except QueryError Statement) (db : σ) : Except (RunError ε) ρ × σ :=
  match statement with
  | .error e => (.error (.query e), db)
  | .ok statement =>
    let (answer, db) := run statement db
    (answer.mapError .engine, db)

/-- Runs the request and keeps the session. -/
def Session.peek {σ ε ρ : Type} (s : Session) (engine : Engine σ ε ρ) (db : σ) :
    Except (RunError ε) ρ × σ :=
  runStatement engine.query s.selectStatement db

/-- Runs the request and resets the session, whatever comes of it. -/
def Session.get {σ ε ρ : Type} (s : Session) (engine : Engine σ ε ρ) (db : σ) :
    Except (RunError ε) ρ × σ × Session :=
  let (answer, db) := s.peek engine db
  (answer, db, s.reset)

/-- Inserts one row into the base table. -/
def Session.insert {σ ε ρ : Type} (s : Session) (engine : Engine σ ε ρ) (columns : List String)
    (values : List Value) (db : σ) : Except (RunError ε) ρ × σ :=
  runStatement engine.execute (s.insertStatement columns values) db

/-- Updates the selected rows. -/
def Mutation.update {σ ε ρ : Type} (m : Mutation) (engine : Engine σ ε ρ) (columns : List String)
    (values : List Value) (db : σ) : Except (RunError ε) ρ × σ :=
  runStatement engine.execute (m.updateStatement columns values) db

/-- Deletes the selected rows. -/
def Mutation.delete {σ ε ρ : Type} (m : Mutation) (engine : Engine σ ε ρ) (db : σ) :
    Except (RunError ε) ρ × σ :=
  runStatement engine.execute (.ok m.deleteStatement) db

end Tabula.Query
