/-
# Plans

A plan is the sorted list of migrations, each with the statements that carry it out.  A migration
is covered, and has no statements, when an earlier CREATE TABLE of the same plan already made what
it asks for.

A table is created or rebuilt in its target shape, less the columns that a later migration adds:
those are deferred, unless they carry a constraint that only CREATE TABLE can state.  To rebuild
a table means to rename it, create it anew, copy the rows, drop the renamed table and create all
indexes again.
-/
import Tabula.Migration.Set
import Tabula.Migration.Snapshot
import Tabula.Schema.Ddl

namespace Tabula

open Tabula.Schema

/-! ## 1. Progress -/

/-- What earlier steps of a plan made. -/
structure Progress where
  /-- The tables that were created or rebuilt. -/
  created : List String
  /-- For such a table the columns that were left to later migrations, the latest entry first. -/
  deferred : List (String × List String)
deriving DecidableEq, Repr

namespace Progress

/-- Nothing made yet. -/
def start : Progress := ⟨[], []⟩

/-- Whether a table was created without a column. -/
def isDeferred (p : Progress) (table column : String) : Bool :=
  match p.deferred.lookup table with
  | some columns => columns.contains column
  | none => false

/-- A table was created or rebuilt. -/
def markCreated (p : Progress) (table : String) : Progress :=
  { p with created := table :: p.created }

/-- A table is created without these columns. -/
def defer (p : Progress) (table : String) (columns : List String) : Progress :=
  { p with deferred := (table, columns) :: p.deferred }

end Progress

/-! ## 2. Shapes -/

/-- The shape in which a table is created, and the columns that later migrations add to it. -/
structure Shape where
  table : Table
  /-- All columns that later migrations add. -/
  added : List String
  /-- Those of them that the shape leaves out. -/
  deferred : List String

namespace MigrationSet

/-- The columns that migrations add to a table. -/
def addedColumns (set : MigrationSet) (t : Table) :
    List Migration → Except MigrationError (List Column)
  | [] => .ok []
  | m :: ms =>
    if m.kind.addsColumn then do
      let other ← set.table m.table
      if other.name = t.name then do
        let c ← t.column (← m.requireColumn)
        return c :: (← set.addedColumns t ms)
      else set.addedColumns t ms
    else set.addedColumns t ms

/-- The shape in which a table is created while migrations are still to come. -/
def shape (set : MigrationSet) (t : Table) (pending : List Migration) :
    Except MigrationError Shape := do
  let added ← set.addedColumns t pending
  let deferred := (added.filter fun c => !t.isConstrained c).map (·.name)
  return ⟨t.without deferred, added.map (·.name), deferred⟩

end MigrationSet

/-! ## 3. Single migrations -/

/-- The name that a table has while it is rebuilt. -/
def temporaryName (table : String) : String := "temp_" ++ table

/-- The index that a migration asks for: a declared one of that name, else one over the column. -/
def Migration.index (m : Migration) (t : Table) : Except MigrationError Index := do
  let key ← m.requireColumn
  match t.index? key with
  | some i => return i
  | none =>
    match t.column? key with
    | some c => return if m.kind = .addUniqueIndex then t.uniqueIndex c.name else t.columnIndex c.name
    | none => .error (.unknownIndex t.name key)

/-- Whether CREATE TABLE made the uniqueness that an index stands for: the index is over columns
that were not deferred, and it is declared as unique, or its only column is. -/
def Progress.established (p : Progress) (t : Table) (i : Index) : Bool :=
  !i.columns.any (fun c => p.isDeferred t.name c.1) &&
    ((match t.index? i.name with
      | some declared => declared.unique
      | none => false) ||
    (match i.columns with
      | [(column, _)] =>
        match t.column? column with
        | some c => c.unique
        | none => false
      | _ => false))

/-- Whether an earlier CREATE TABLE covers a migration. -/
def Progress.covers (p : Progress) (set : MigrationSet) (m : Migration) :
    Except MigrationError Bool :=
  match m.kind with
  | .addColumn | .addUniqueColumn => do
    let t ← set.table m.table
    if t.name ∈ p.created then do
      let c ← t.column (← m.requireColumn)
      return t.isConstrained c && !p.isDeferred t.name c.name
    else return false
  | .addUniqueIndex => do
    let t ← set.table m.table
    if t.name ∈ p.created then
      match m.index t with
      | .ok i => return p.established t i
      | .error _ => return false
    else return false
  | .addForeignKey => do
    let t ← set.table m.table
    return decide (t.name ∈ p.created)
  | _ => .ok false

/-- Foreign keys that a table had and that its target does not have. -/
structure LostKeys where
  table : String
  count : Nat
deriving DecidableEq, Repr

/-- The warning about lost keys. -/
def LostKeys.message (_ : LostKeys) : String := "table recreation drops foreign keys"

/-- What carries out a migration. -/
structure Deed where
  statements : List Ddl
  lost : Option LostKeys

/-- Statements alone. -/
def Deed.ofStatements (statements : List Ddl) : Deed := ⟨statements, none⟩

/-- The columns that are copied when a table is rebuilt: those of the shape that the table had
before.  If the migration does not list what it had, it is all but those that are added later. -/
def Migration.copiedColumns (m : Migration) (s : Shape) : Except MigrationError (List String) :=
  match m.extras.get? Migration.previousColumns with
  | some text => do
    let previous ← Snapshot.decodeColumns text
    return s.table.columnNames.filter previous.contains
  | none => .ok (s.table.columnNames.filter fun c => !s.added.contains c)

/-- The foreign keys that are lost when a table is rebuilt, if the migration lists what it had. -/
def Migration.lostKeys (m : Migration) (s : Shape) : Except MigrationError (Option LostKeys) :=
  match m.extras.get? Migration.previousForeignKeys with
  | some text => do
    let previous ← Snapshot.decodeForeignKeys text
    let count := previous.countP fun k => !s.table.foreignKeys.contains k
    return if count = 0 then none else some ⟨s.table.name, count⟩
  | none => .ok none

/-- The statements that rebuild a table in a shape and copy columns. -/
def rebuildStatements (t : Table) (copied : List String) : List Ddl :=
  let temporary := temporaryName t.name
  [.renameTable t.name temporary, .createTable t] ++
    (if copied = [] then [] else [.copyRows t.name temporary copied]) ++
    [.dropTable temporary] ++ t.allIndexes.map (.createIndex t.name)

/-- Rebuilds a table in a shape. -/
def Migration.rebuild (m : Migration) (s : Shape) : Except MigrationError Deed := do
  let copied ← m.copiedColumns s
  let lost ← m.lostKeys s
  return ⟨rebuildStatements s.table copied, lost⟩

/-- The statements that create a table in a shape, with its declared unique indexes. -/
def createStatements (t : Table) : List Ddl :=
  .createTable t :: (t.indexes.filter (·.unique)).map (.createIndex t.name)

/-- The statements that add a column, with its indexes. -/
def addColumnStatements (t : Table) (c : Column) (unique : Bool) : List Ddl :=
  [.addColumn t.name c] ++
    (if c.unique || unique then [.createIndex t.name (t.uniqueIndex c.name)] else []) ++
    (if c.indexed then [.createIndex t.name (t.columnIndex c.name)] else [])

/-- Carries out a migration; other migrations are still to come. -/
def Migration.deed (m : Migration) (set : MigrationSet) (pending : List Migration)
    (p : Progress) : Except MigrationError (Deed × Progress) :=
  match m.kind with
  | .dropTable => .ok (.ofStatements [.dropTable m.table], p)
  | .createTable => do
    let t ← set.table m.table
    let s ← set.shape t pending
    return (.ofStatements (createStatements s.table),
      (p.defer t.name s.deferred).markCreated t.name)
  | .addColumn | .addUniqueColumn => do
    let t ← set.table m.table
    let c ← t.column (← m.requireColumn)
    return (.ofStatements (addColumnStatements t c (m.kind = .addUniqueColumn)), p)
  | .addIndex | .addUniqueIndex => do
    let t ← set.table m.table
    let i ← m.index t
    return (.ofStatements [.createIndex t.name i], p)
  | .makeColumnUnique => do
    let t ← set.table m.table
    let c ← t.column (← m.requireColumn)
    return (.ofStatements [.createIndex t.name (t.uniqueIndex c.name)], p)
  | .copyTable => do
    let t ← set.table m.table
    return (.ofStatements [.createTableAs (temporaryName t.name) t.name t.columnNames], p)
  | .updatePrimaryKey | .updateForeignKeys | .changeDefault | .addForeignKey => do
    let t ← set.table m.table
    let s ← set.shape t pending
    let deed ← m.rebuild s
    return (deed, (p.defer t.name s.deferred).markCreated t.name)

/-! ## 4. Plans -/

/-- What a plan does about a migration. -/
inductive Action where
  | covered
  | carriedOut (deed : Deed)

/-- A migration and what is done about it. -/
structure PlanStep where
  migration : Migration
  action : Action

namespace PlanStep

/-- Whether the migration is covered by an earlier one. -/
def isCovered (s : PlanStep) : Bool :=
  match s.action with
  | .covered => true
  | .carriedOut _ => false

/-- The statements of the step. -/
def statements (s : PlanStep) : List Ddl :=
  match s.action with
  | .covered => []
  | .carriedOut deed => deed.statements

/-- The foreign keys that the step loses. -/
def lost (s : PlanStep) : Option LostKeys :=
  match s.action with
  | .covered => none
  | .carriedOut deed => deed.lost

end PlanStep

namespace MigrationSet

/-- Plans one migration; others are still to come. -/
def planStep (set : MigrationSet) (m : Migration) (pending : List Migration) (p : Progress) :
    Except MigrationError (PlanStep × Progress) := do
  if ← p.covers set m then return (⟨m, .covered⟩, p)
  else do
    let (deed, p) ← m.deed set pending p
    return (⟨m, .carriedOut deed⟩, p)

/-- Plans migrations in their order. -/
def planSteps (set : MigrationSet) : List Migration → Progress →
    Except MigrationError (List PlanStep)
  | [], _ => .ok []
  | m :: pending, p => do
    let (step, p) ← set.planStep m pending p
    return step :: (← set.planSteps pending p)

/-- The plan of a set. -/
def plan (set : MigrationSet) : Except MigrationError (List PlanStep) := do
  set.planSteps (Migration.sort (← set.migrations)) .start

/-- The statements of a set, in the order in which they are to be run. -/
def compile (set : MigrationSet) : Except MigrationError (List Ddl) := do
  return (← set.plan).flatMap PlanStep.statements

end MigrationSet
end Tabula
