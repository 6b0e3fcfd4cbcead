/-
# Criteria on dates select by time

A column of dates holds their texts, and a criterion binds the text of the date that it compares
with.  The engine compares the two texts byte by byte (`Relation.Holds`), and from year 0 to year
9999 that is to compare the dates in time, cut to milliseconds: the equalities, the comparisons and
the ranges select by time (`selectsByTime`).
-/
import Tabula.Proofs.Calendar.TextOrder
import Tabula.Query.Predicate

namespace Tabula.Query

open Tabula.Calendar

/-! ## 1. What criteria say -/

/-- What a relation says of two values, where some come before others.  LIKE says nothing of their
order. -/
def Relation.Orders {α : Type} (before : α → α → Prop) : Relation → α → α → Prop
  | eq, a, b => a = b
  | ne, a, b => a ≠ b
  | lt, a, b => before a b
  | le, a, b => before a b ∨ a = b
  | gt, a, b => before b a
  | ge, a, b => before b a ∨ a = b
  | like, _, _ => False

/-- A relation says the same of values that come in the same order. -/
theorem Relation.orders_congr {α β : Type} {before : α → α → Prop} {before' : β → β → Prop} {a b : α}
    {a' b' : β} (r : Relation) (hlt : before a b ↔ before' a' b') (hgt : before b a ↔ before' b' a')
    (heq : a = b ↔ a' = b') : r.Orders before a b ↔ r.Orders before' a' b' := by
  cases r <;> simp only [Orders, hlt, hgt, heq, ne_eq]

section Engine

variable (like : String → String → Prop)

/-- Whether a stored text stands in a relation to a bound one.  Texts are compared byte by byte; what
LIKE means is left open. -/
def Relation.Holds (r : Relation) (stored bound : String) : Prop :=
  match r with
  | .like => like stored bound
  | r => r.Orders (fun s t => bytes s < bytes t) stored bound

/-- Whether a comparison holds of a row, given the text in each of its columns.  A relation holds
of no column that is NULL. -/
def Comparison.Holds (cells : ColumnRef → Option String) : Comparison → Prop
  | relation column r bound => ∃ stored ∈ cells column, r.Holds like stored bound
  | isNull column => cells column = none
  | isNotNull column => cells column ≠ none

/-- Whether a criterion holds of a row. -/
def Criterion.Holds (cells : ColumnRef → Option String) : Criterion → Prop
  | single c => c.Holds like cells
  | range low high => low.Holds like cells ∧ high.Holds like cells

end Engine

/-! ## 2. Columns of dates -/

variable {like : String → String → Prop} {d e : DateTime}

/-- A relation to a date is about time. -/
theorem Relation.holds_text_iff {r : Relation} (hr : r ≠ .like) (hd : d.IsFourDigit)
    (he : e.IsFourDigit) :
    r.Holds like d.text e.text ↔ r.Orders DateTime.Before d.truncated e.truncated := by
  have horders : r.Orders (fun s t => bytes s < bytes t) d.text e.text ↔
      r.Orders DateTime.Before d.truncated e.truncated :=
    r.orders_congr (bytes_text_lt_iff hd he) (bytes_text_lt_iff he hd) text_eq_iff
  cases r with
  | like => exact absurd rfl hr
  | eq | ne | lt | le | gt | ge => exact horders

/-- A comparison of a column that holds a date with a date. -/
theorem Comparison.holds_relation_iff {cells : ColumnRef → Option String} {column : ColumnRef}
    {r : Relation} (hr : r ≠ .like) (hd : d.IsFourDigit) (he : e.IsFourDigit)
    (hcell : cells column = (Value.date d).parameter?) :
    (relation column r e.text).Holds like cells ↔
      r.Orders DateTime.Before d.truncated e.truncated := by
  have hstored : cells column = some d.text := hcell
  simp [Holds, hstored, Relation.holds_text_iff hr hd he]

/-- **Criteria on dates select by time.**  Between year 0 and year 9999 a date comes before another,
both cut to milliseconds, exactly if its text is the smaller one in the order of bytes, and the
texts are the same exactly if the dates are.  So the criterion that a call appends for a comparison
with a date holds of a row that has a date in the column exactly if the dates are so related in
time, and the one for a range of dates exactly if the date is in it. -/
theorem selectsByTime (hd : d.IsFourDigit) (he : e.IsFourDigit) :
    (d.truncated.Before e.truncated ↔ bytes d.text < bytes e.text) ∧
    (d.text = e.text ↔ d.truncated = e.truncated) ∧
    ∀ (like : String → String → Prop) (cells : ColumnRef → Option String) (column : ColumnRef)
      (p : Predicate), cells column = (Value.date d).parameter? →
      (∀ r ≠ Relation.like, ∃ c, p.apply (.compare column r (.date e)) = p.append c ∧
        (c.Holds like cells ↔ r.Orders DateTime.Before d.truncated e.truncated)) ∧
      ∀ (f : DateTime) (high : UpperBound), f.IsFourDigit → high.value = .date f →
        ∃ c, p.apply (.between column (.date e) (some high)) = p.append c ∧
          (c.Holds like cells ↔ Relation.ge.Orders DateTime.Before d.truncated e.truncated ∧
            high.relation.Orders DateTime.Before d.truncated f.truncated) := by
  refine ⟨(bytes_text_lt_iff hd he).symm, text_eq_iff, ?_⟩
  intro like cells column p hcell
  constructor
  · intro r hr
    exact ⟨_, rfl, Comparison.holds_relation_iff hr hd he hcell⟩
  · intro f high hf hvalue
    have hhigh : high.relation ≠ .like := by cases high <;> simp [UpperBound.relation]
    refine ⟨.range (.relation column .ge e.text) (.relation column high.relation f.text), ?_, ?_⟩
    · simp only [Predicate.apply, Predicate.between, Option.bind_some, hvalue]
      rfl
    · exact and_congr (Comparison.holds_relation_iff (by decide) hd he hcell)
        (Comparison.holds_relation_iff hhigh hd hf hcell)

/-- The millisecond before a leap second. -/
def lastMillisecond : DateTime :=
  { leapSecond with
    clock := { leapSecond.clock with nanosecond := 999000000, nanosecond_lt := by decide } }

/-- The moment after it. -/
def newYear : DateTime := Day.start ⟨2017, 1, 1, by decide, by decide⟩

/-- A leap second is in the range that ends with the year. -/
theorem selectsByTime_leapSecond :
    leapSecond.IsFourDigit ∧ lastMillisecond.IsFourDigit ∧ newYear.IsFourDigit ∧
      bytes lastMillisecond.text < bytes leapSecond.text ∧
      ∃ c, (Predicate.empty "logs").apply (.between ⟨"logs", "at"⟩ (.date lastMillisecond)
        (some (.below (.date newYear)))) = (Predicate.empty "logs").append c ∧
          c.Holds (fun _ _ => False) fun _ => some leapSecond.text := by
  have hleap : leapSecond.IsFourDigit := by decide
  have hlast : lastMillisecond.IsFourDigit := by decide
  have hnew : newYear.IsFourDigit := by decide
  have hafter : lastMillisecond.truncated.Before leapSecond.truncated := by decide
  have hbefore : leapSecond.truncated.Before newYear.truncated := by decide
  obtain ⟨c, hc, hholds⟩ := ((selectsByTime hleap hlast).2.2 (fun _ _ => False)
    (fun _ => some leapSecond.text) ⟨"logs", "at"⟩ (.empty "logs") rfl).2 newYear
    (.below (.date newYear)) hnew rfl
  exact ⟨hleap, hlast, hnew, (selectsByTime hlast hleap).1.mp hafter, c, hc,
    hholds.mpr ⟨.inl hafter, hbefore⟩⟩

end Tabula.Query
