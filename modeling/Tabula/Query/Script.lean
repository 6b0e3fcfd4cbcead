/-
# Scripts

A script is a list of steps on a session, as data.  It runs against a recorder, an engine that
keeps a journal of the statements it was given and answers with the length of the journal.  A
step may say that the recorder fails: then nothing is recorded and the fault is passed on.
-/
import Tabula.Query.Session

namespace Tabula.Query

/-! ## 1. The recorder -/

/-- The statements that reached the engine, in order. -/
abbrev Journal := List Statement

/-- Records a statement and answers with the number of statements so far, or fails. -/
def record {ε : Type} (fault : Option ε) (statement : Statement) (journal : Journal) :
    Except ε Nat × Journal :=
  match fault with
  | some e => (.error e, journal)
  | none => (.ok (journal.length + 1), journal ++ [statement])

/-- The engine that records what it is given. -/
def recorder {ε : Type} (fault : Option ε) : Engine Journal ε Nat := ⟨record fault, record fault⟩

/-! ## 2. Steps -/

/-- A use of a mutation: compile a statement, or run it. -/
inductive MutationStep (ε : Type) where
  | update (columns : List String) (values : List Value)
  | delete
  | runUpdate (columns : List String) (values : List Value) (fault : Option ε)
  | runDelete (fault : Option ε)

/-- A step on a session. -/
inductive Step (ε : Type) where
  | find (calls : List PredicateCall)
  | having (calls : List PredicateCall)
  | order (order : Order)
  | join (join : Join) (projection : Projection)
  | project (projection : Projection)
  | groupBy (column : ColumnRef)
  | limit (n : UInt64)
  | offset (n : UInt64)
  | last (n : UInt64)
  | reset
  | selection
  | get (fault : Option ε)
  | peek (fault : Option ε)
  | insert (columns : List String) (values : List Value)
  | runInsert (columns : List String) (values : List Value) (fault : Option ε)
  | set (steps : List (MutationStep ε))

/-- What a use of a mutation answers. -/
inductive MutationReply (ε : Type) where
  | statement (s : Except QueryError Statement)
  | answer (a : Except (RunError ε) Nat)

/-- What a step answers. -/
inductive Reply (ε : Type) where
  | nothing
  | selection (s : Selection)
  | statement (s : Except QueryError Statement)
  | answer (a : Except (RunError ε) Nat)
  | mutation (replies : List (MutationReply ε))

/-! ## 3. Running -/

/-- Uses a mutation once. -/
def Mutation.step {ε : Type} (m : Mutation) (journal : Journal) :
    MutationStep ε → MutationReply ε × Journal
  | .update columns values => (.statement (m.updateStatement columns values), journal)
  | .delete => (.statement (.ok m.deleteStatement), journal)
  | .runUpdate columns values fault =>
    let (answer, journal) := m.update (recorder fault) columns values journal
    (.answer answer, journal)
  | .runDelete fault =>
    let (answer, journal) := m.delete (recorder fault) journal
    (.answer answer, journal)

/-- Uses a mutation several times. -/
def Mutation.steps {ε : Type} (m : Mutation) :
    List (MutationStep ε) → Journal → List (MutationReply ε) × Journal
  | [], journal => ([], journal)
  | step :: rest, journal =>
    let (reply, journal) := m.step journal step
    let (replies, journal) := m.steps rest journal
    (reply :: replies, journal)

/-- Makes one step: the answer, the session afterwards, and the journal afterwards. -/
def Session.step {ε : Type} (s : Session) (journal : Journal) :
    Step ε → Reply ε × Session × Journal
  | .find calls =>
    let s := s.find calls
    (.selection s.selection, s, journal)
  | .having calls => (.nothing, s.haveGroups calls, journal)
  | .order order => (.nothing, s.orderBy order, journal)
  | .join join projection => (.nothing, s.addJoin join projection, journal)
  | .project projection => (.nothing, s.project projection, journal)
  | .groupBy column => (.nothing, s.addGroup column, journal)
  | .limit n => (.nothing, s.withLimit n, journal)
  | .offset n => (.nothing, s.withOffset n, journal)
  | .last n => (.nothing, s.withLast n, journal)
  | .reset => (.nothing, s.reset, journal)
  | .selection => (.selection s.selection, s, journal)
  | .get fault =>
    let (answer, journal, s) := s.get (recorder fault) journal
    (.answer answer, s, journal)
  | .peek fault =>
    let (answer, journal) := s.peek (recorder fault) journal
    (.answer answer, s, journal)
  | .insert columns values => (.statement (s.insertStatement columns values), s, journal)
  | .runInsert columns values fault =>
    let (answer, journal) := s.insert (recorder fault) columns values journal
    (.answer answer, s, journal)
  | .set steps =>
    let (mutation, s) := s.set
    let (replies, journal) := mutation.steps steps journal
    (.mutation replies, s, journal)

/-- What is seen after a step: its answer, and the SELECT of the session as it then stands. -/
structure Trace (ε : Type) where
  reply : Reply ε
  select : Except QueryError Statement

/-- Makes steps in order: what is seen after each, the session at the end, and the journal. -/
def Session.run {ε : Type} (s : Session) (journal : Journal) :
    List (Step ε) → List (Trace ε) × Session × Journal
  | [] => ([], s, journal)
  | step :: rest =>
    let (reply, s, journal) := s.step journal step
    let (traces, last, journal) := s.run journal rest
    (⟨reply, s.selectStatement⟩ :: traces, last, journal)

end Tabula.Query
