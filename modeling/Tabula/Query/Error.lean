/-
# What can be wrong with a request

Lists that belong together element by element must be of one length, and a condition on groups
needs groups.  `pairUp` pairs two lists and refuses lists of different lengths.
-/
import Tabula.Decimal.Digits

namespace Tabula.Query

/-- Two lists that belong together. -/
inductive Pairing where
  | columnsDirections
  | columnsValues
  | indexColumnsOrders
deriving DecidableEq, Repr

/-- What is being paired, in words. -/
def Pairing.text : Pairing → String
  | columnsDirections => "columns/directions"
  | columnsValues => "columns/values"
  | indexColumnsOrders => "index columns/sort orders"

/-- Why a request has no statement. -/
inductive QueryError where
  | lengthMismatch (what : Pairing) (left right : Nat)
  | havingWithoutGroupBy
deriving DecidableEq, Repr

/-- The wording of an error. -/
def QueryError.message : QueryError → String
  | lengthMismatch what left right =>
    what.text ++ ": " ++ Decimal.natText left ++ " entries on the left but " ++
      Decimal.natText right ++ " on the right"
  | havingWithoutGroupBy => "HAVING requires a GROUP BY clause"

/-- Pairs two lists element by element. -/
def pairUp {α β : Type} (what : Pairing) (xs : List α) (ys : List β) :
    Except QueryError (List (α × β)) :=
  if xs.length = ys.length then .ok (xs.zip ys)
  else .error (.lengthMismatch what xs.length ys.length)

/-- What is made of two lists of one length, and of no others. -/
theorem map_pairUp_eq_ok_iff {α β γ : Type} {what : Pairing} {xs : List α} {ys : List β}
    {f : List (α × β) → γ} {c : γ} :
    (pairUp what xs ys).map f = .ok c ↔ xs.length = ys.length ∧ c = f (xs.zip ys) := by
  unfold pairUp
  by_cases h : xs.length = ys.length
  · simp [h, Except.map, eq_comm]
  · simp [h, Except.map]

end Tabula.Query
