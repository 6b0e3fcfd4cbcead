/-
# What queries mean

A statement that a session compiles is read by an engine.  What the engine knows is a `Database`:
the rows that a join of tables has, which conditions hold of a row, and the value of a column in it.
On top of that stands the meaning of the clauses that requests are put into: sorting by keys, where
rows with equal keys may come in any order (`Database.Sorts`); limits and offsets (`Page.cut?`); a
subquery that picks row identifiers (`RowidQuery.Picks`); and queries, which give rows
(`EngineQuery.Yields`) or address rows of their table (`EngineQuery.Addresses`).

A row here is a row of the joined tables.  The columns that a SELECT shows of it do not matter.
-/
import Mathlib.Algebra.Group.Nat.Defs
import Mathlib.Order.Defs.LinearOrder
import Mathlib.Data.List.Sort
import Tabula.Query.Session
import Tabula.Proofs.Query.OrderText

namespace Tabula.Query

open Std

/-! ## 1. Databases -/

/-- What an engine knows of its data.  The rows of a single table have an identifier each, which is
never NULL, and they can be counted; the joined rows that have an identifier have it from a row of
their base table. -/
structure Database (ρ ν : Type) [LinearOrder ν] where
  /-- The rows of joined tables. -/
  source : JoinGraph → List ρ
  /-- Whether a condition holds of a row. -/
  holds : Selection → ρ → Bool
  /-- The value of a column in a row. -/
  value : ρ → String → ν
  null : ν
  rowid_ne_null : ∀ table, ∀ r ∈ source (.single table), value r (rowid table).text ≠ null
  rowid_nodup : ∀ table, ((source (.single table)).map fun r => value r (rowid table).text).Nodup
  length_lt : ∀ table, (source (.single table)).length < 2 ^ 63
  rowid_of_joined : ∀ g, ∀ r ∈ source g, value r (rowid g.base).text ≠ null →
    ∃ r' ∈ source (.single g.base), value r' (rowid g.base).text = value r (rowid g.base).text

namespace Database

variable {ρ ν : Type} [LinearOrder ν]

/-- The identifier that a row has from a table. -/
def rowidOf (db : Database ρ ν) (table : String) (r : ρ) : ν := db.value r (rowid table).text

/-- Whether a row passes a WHERE clause, if there is one. -/
def keeps (db : Database ρ ν) (s : Selection) (r : ρ) : Bool := s.isNone || db.holds s r

/-- The rows of joined tables that pass a WHERE clause. -/
def matching (db : Database ρ ν) (g : JoinGraph) (s : Selection) : List ρ :=
  (db.source g).filter (db.keeps s)

/-- The rows whose identifiers are in a list.  NULL is in no list. -/
def pick (db : Database ρ ν) (table : String) (ids : List ν) (rows : List ρ) : List ρ :=
  rows.filter fun r => db.rowidOf table r ≠ db.null ∧ db.rowidOf table r ∈ ids

/-! ## 2. Sorting -/

/-- Compares two rows by one column. -/
def compareKey (db : Database ρ ν) (column : String) : Direction → ρ → ρ → Ordering
  | .asc => compareOn fun r => db.value r column
  | .desc => fun a b => compareOn (fun r => db.value r column) b a

/-- Compares two rows by several columns, the most significant first. -/
def compareKeys (db : Database ρ ν) : List (String × Direction) → ρ → ρ → Ordering
  | [] => fun _ _ => .eq
  | (column, d) :: keys => compareLex (db.compareKey column d) (db.compareKeys keys)

/-- Rows that are sorted by keys. -/
def IsSorted (db : Database ρ ν) (keys : List (String × Direction)) (rows : List ρ) : Prop :=
  rows.Pairwise fun a b => (db.compareKeys keys a b).isLE

/-- Rows in the order that an ORDER BY clause asks for. -/
def Sorts (db : Database ρ ν) (order : String) (rows out : List ρ) : Prop :=
  ∃ keys, readOrder? order = some keys ∧ out.Perm rows ∧ db.IsSorted keys out

end Database

/-! ## 3. Pages -/

/-- How many rows a page skips. -/
def Page.skipped (p : Page) : Nat :=
  match p.offset with
  | some n => n.toNat
  | none => 0

/-- The rows of a page.  A negative limit is none; an offset that the engine cannot count to is an
error. -/
def Page.cut? {α : Type} (p : Page) (rows : List α) : Option (List α) :=
  if p.skipped < 2 ^ 63 then
    some <| match p.limit with
      | some n => if n < 0 then rows.drop p.skipped else (rows.drop p.skipped).take n.toNat
      | none => rows.drop p.skipped
  else none

/-! ## 4. Queries -/

variable {ρ ν : Type} [LinearOrder ν]

/-- The identifiers that a subquery picks. -/
def RowidQuery.Picks (db : Database ρ ν) (q : RowidQuery) (ids : List ν) : Prop :=
  ∃ ordered page, db.Sorts q.order (db.matching q.source q.selection) ordered ∧
    q.page.cut? ordered = some page ∧ ids = page.map (db.rowidOf q.source.base)

/-- The rows that a filter keeps. -/
def Filter.Keeps (db : Database ρ ν) (rows : List ρ) : Filter → List ρ → Prop
  | plain s, kept => kept = rows.filter (db.keeps s)
  | rowidIn q, kept => ∃ ids, q.Picks db ids ∧ kept = db.pick q.source.base ids rows

/-- **The rows that a query gives**, in their order. -/
def EngineQuery.Yields (db : Database ρ ν) (q : EngineQuery) (out : List ρ) : Prop :=
  ∃ kept ordered, q.filter.Keeps db (db.source q.source) kept ∧
    (match q.order with
      | some order => db.Sorts order kept ordered
      | none => ordered.Perm kept) ∧
    q.page.cut? ordered = some out

/-- The rows that a SELECT without groups gives, before their columns are shown.  DISTINCT is about
what is shown, and a page would be cut only after it, so there must not be both. -/
def Select.Yields (db : Database ρ ν) (q : Select) (out : List ρ) : Prop :=
  q.groupBy = [] ∧ q.having.isNone = true ∧
    (q.query.page = .all ∨ ∀ p ∈ q.projections, p.distinct = false) ∧ q.query.Yields db out

/-- **The rows of its table that a mutation is about**, by their identifiers. -/
def EngineQuery.Addresses (db : Database ρ ν) (q : EngineQuery) (ids : Set ν) : Prop :=
  ∃ kept, q.filter.Keeps db (db.source (.single q.table)) kept ∧
    ids = {v | ∃ r ∈ kept, db.rowidOf q.table r = v}

end Tabula.Query
