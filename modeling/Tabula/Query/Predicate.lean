/-
# Predicates

A predicate grows call by call.  What is kept of a call is a criterion: one comparison, or the two
bounds of a range.  Every further criterion is joined to everything before it, so a condition is a
chain that grows at its end, and its text wraps all that came before in parentheses:
`((a) AND b) OR c`.  A comparison without a value to compare with is left out.

A condition has three views.  `Condition.text` is the WHERE text, `Condition.args` lists the bound
texts in the order of their placeholders, and `Condition.nodes` lists what was appended, in order.
-/
import Tabula.Value

namespace Tabula.Query

/-! ## 1. Comparisons -/

/-- A column of a table. -/
structure ColumnRef where
  table : String
  name : String
deriving DecidableEq, Repr

/-- The column qualified by its table. -/
def ColumnRef.text (c : ColumnRef) : String := c.table ++ "." ++ c.name

/-- The name of the column that identifies a row. -/
def rowidColumn : String := "rowid"

/-- The row identifier of a table. -/
def rowid (table : String) : ColumnRef := ⟨table, rowidColumn⟩

/-- How a column may stand to a bound value. -/
inductive Relation where
  | eq
  | ne
  | lt
  | le
  | gt
  | ge
  | like
deriving DecidableEq, Repr

/-- The operator that writes a relation. -/
def Relation.text : Relation → String
  | eq => "="
  | ne => "!="
  | lt => "<"
  | le => "<="
  | gt => ">"
  | ge => ">="
  | like => "LIKE"

/-- A condition on one column. -/
inductive Operator where
  | relation (r : Relation)
  | isNull
  | isNotNull
deriving DecidableEq, Repr

namespace Operator

/-- The operator as SQL. -/
def text : Operator → String
  | relation r => r.text
  | isNull => "IS NULL"
  | isNotNull => "IS NOT NULL"

/-- Whether the operator binds a value. -/
def takesValue : Operator → Bool
  | relation _ => true
  | _ => false

/-- All operators. -/
def all : List Operator :=
  [.relation .eq, .relation .ne, .relation .lt, .relation .le, .relation .gt, .relation .ge,
   .relation .like, .isNull, .isNotNull]

end Operator

/-- One comparison.  A relation comes with the text it binds; the tests for NULL bind nothing. -/
inductive Comparison where
  | relation (column : ColumnRef) (r : Relation) (bound : String)
  | isNull (column : ColumnRef)
  | isNotNull (column : ColumnRef)
deriving DecidableEq, Repr

namespace Comparison

/-- The compared column. -/
def column : Comparison → ColumnRef
  | relation c _ _ => c
  | isNull c => c
  | isNotNull c => c

/-- The operator. -/
def operator : Comparison → Operator
  | relation _ r _ => .relation r
  | isNull _ => .isNull
  | isNotNull _ => .isNotNull

/-- The bound text, if the operator binds one. -/
def bound? : Comparison → Option String
  | relation _ _ bound => some bound
  | _ => none

/-- The comparison as SQL, with a placeholder for the bound text. -/
def text (c : Comparison) : String :=
  c.column.text ++ " " ++ c.operator.text ++ if c.operator.takesValue then " ?" else ""

end Comparison

/-! ## 2. Conditions -/

/-- How a criterion is joined to what came before. -/
inductive Connective where
  | and
  | or
deriving DecidableEq, Repr

/-- The keyword of a connective. -/
def Connective.text : Connective → String
  | and => "AND"
  | or => "OR"

/-- What is kept of one call: a comparison, or the two bounds of a range. -/
inductive Criterion where
  | single (c : Comparison)
  | range (low high : Comparison)
deriving DecidableEq, Repr

/-- A step in the making of a WHERE text. -/
inductive Node where
  /-- Wraps everything so far in parentheses. -/
  | group
  | connective (c : Connective)
  | comparison (c : Comparison)
deriving DecidableEq, Repr

namespace Criterion

/-- The comparisons of a criterion. -/
def comparisons : Criterion → List Comparison
  | single c => [c]
  | range low high => [low, high]

/-- The criterion as SQL.  The bounds of a range are joined by AND without parentheses. -/
def text : Criterion → String
  | single c => c.text
  | range low high => low.text ++ " AND " ++ high.text

/-- The bound texts, in the order of their placeholders. -/
def args (c : Criterion) : List String := c.comparisons.filterMap Comparison.bound?

/-- What a criterion appends. -/
def nodes : Criterion → List Node
  | single c => [.comparison c]
  | range low high => [.comparison low, .connective .and, .comparison high]

end Criterion

/-- A chain of criteria, each joined to everything before it. -/
inductive Condition where
  | first (c : Criterion)
  | joined (before : Condition) (conn : Connective) (c : Criterion)
deriving DecidableEq, Repr

namespace Condition

/-- The WHERE text. -/
def text : Condition → String
  | first c => c.text
  | joined before conn c => "(" ++ before.text ++ ") " ++ conn.text ++ " " ++ c.text

/-- The bound texts, in the order of their placeholders. -/
def args : Condition → List String
  | first c => c.args
  | joined before _ c => before.args ++ c.args

/-- What was appended, in order. -/
def nodes : Condition → List Node
  | first c => c.nodes
  | joined before conn c => before.nodes ++ [.group, .connective conn] ++ c.nodes

/-- The criteria, in order. -/
def criteria : Condition → List Criterion
  | first c => [c]
  | joined before _ c => before.criteria ++ [c]

end Condition

/-- A WHERE or HAVING text and its arguments; the empty text stands for no condition. -/
structure Selection where
  text : String
  args : List String
deriving DecidableEq, Repr

namespace Selection

/-- No condition. -/
def none : Selection := ⟨"", []⟩

/-- Whether there is no condition. -/
def isNone (s : Selection) : Bool := s.text == ""

end Selection

/-! ## 3. Growing a predicate -/

/-- The name of the column that marks deleted rows. -/
def deletedColumn : String := "deleted"

/-- A predicate over a table, while it grows.  A connective that was called for stays pending until
a criterion is joined by it. -/
structure Predicate where
  table : String
  condition : Option Condition
  pending : Option Connective
deriving DecidableEq, Repr

/-- The upper end of a range. -/
inductive UpperBound where
  | below (v : Value)
  | upTo (v : Value)

/-- The relation to the upper end. -/
def UpperBound.relation : UpperBound → Relation
  | below _ => .lt
  | upTo _ => .le

/-- The value at the upper end. -/
def UpperBound.value : UpperBound → Value
  | below v => v
  | upTo v => v

namespace Predicate

/-- A predicate that holds of every row. -/
def empty (table : String) : Predicate := ⟨table, none, none⟩

/-- Joins a criterion to the predicate: by the pending connective, else by AND.  The first
criterion is joined to nothing and leaves the pending connective as it is. -/
def append (p : Predicate) (c : Criterion) : Predicate :=
  match p.condition with
  | none => { p with condition := some (.first c) }
  | some before =>
    { p with condition := some (.joined before (p.pending.getD .and) c), pending := none }

/-- Joins what there is of a criterion. -/
def append? (p : Predicate) : Option Criterion → Predicate
  | some c => p.append c
  | none => p

/-- The comparison of a column with a value, if there is something to compare with. -/
def comparison? (column : ColumnRef) (r : Relation) (v : Value) : Option Comparison :=
  v.boundText?.map (.relation column r)

/-- Compares a column with a value. -/
def compare (p : Predicate) (column : ColumnRef) (r : Relation) (v : Value) : Predicate :=
  p.append? ((comparison? column r v).map .single)

/-- The column is NULL. -/
def isNull (p : Predicate) (column : ColumnRef) : Predicate := p.append (.single (.isNull column))

/-- The column is not NULL. -/
def isNotNull (p : Predicate) (column : ColumnRef) : Predicate :=
  p.append (.single (.isNotNull column))

/-- The row is marked as deleted. -/
def deleted (p : Predicate) : Predicate :=
  p.compare ⟨p.table, deletedColumn⟩ .eq (.text (Value.boolText true))

/-- The row is not marked as deleted. -/
def notDeleted (p : Predicate) : Predicate :=
  p.compare ⟨p.table, deletedColumn⟩ .ne (.text (Value.boolText true))

/-- The column lies in a range.  An end that is missing is left out. -/
def between (p : Predicate) (column : ColumnRef) (low : Value) (high : Option UpperBound) :
    Predicate :=
  let lower := comparison? column .ge low
  let upper := high.bind fun h => comparison? column h.relation h.value
  p.append? <|
    match lower, upper with
    | some l, some h => some (.range l h)
    | some l, none => some (.single l)
    | none, some h => some (.single h)
    | none, none => none

/-- Joins what follows by a connective. -/
def joinBy (p : Predicate) (c : Connective) : Predicate := { p with pending := some c }

/-- Joins what follows by AND. -/
def and (p : Predicate) : Predicate := p.joinBy .and

/-- Joins what follows by OR. -/
def or (p : Predicate) : Predicate := p.joinBy .or

/-- The WHERE text and its arguments. -/
def selection (p : Predicate) : Selection :=
  match p.condition with
  | some c => ⟨c.text, c.args⟩
  | none => .none

/-- What was appended, in order. -/
def nodes (p : Predicate) : List Node :=
  match p.condition with
  | some c => c.nodes
  | none => []

end Predicate

/-! ## 4. Calls as data -/

/-- One call on a growing predicate. -/
inductive PredicateCall where
  | compare (column : ColumnRef) (r : Relation) (v : Value)
  | isNull (column : ColumnRef)
  | isNotNull (column : ColumnRef)
  | deleted
  | notDeleted
  | between (column : ColumnRef) (low : Value) (high : Option UpperBound)
  | joinBy (c : Connective)

/-- Makes one call. -/
def Predicate.apply (p : Predicate) : PredicateCall → Predicate
  | .compare column r v => p.compare column r v
  | .isNull column => p.isNull column
  | .isNotNull column => p.isNotNull column
  | .deleted => p.deleted
  | .notDeleted => p.notDeleted
  | .between column low high => p.between column low high
  | .joinBy c => p.joinBy c

/-- Makes calls in order, on a predicate that holds of every row. -/
def Predicate.ofCalls (table : String) (calls : List PredicateCall) : Predicate :=
  calls.foldl apply (empty table)

end Tabula.Query
