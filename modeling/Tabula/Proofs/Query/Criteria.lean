/-
# What calls keep

A predicate grows call by call.  At most one criterion is kept of a call
(`PredicateCall.criterion?`): a comparison with a value, a test for NULL, or the bounds of a range
that are there.  `Predicate.apply_cases` is all that a call can do, and two facts follow for any
calls: a predicate is made of the criteria that were kept, in the order of the calls
(`criteria_ofCalls`), and its names are those of the calls (`over_ofCalls`).
-/
import Tabula.Query.Predicate

namespace Tabula.Query

/-! ## 1. One call -/

/-- What is kept of a call on a predicate over a table. -/
def PredicateCall.criterion? (table : String) : PredicateCall → Option Criterion
  | compare column r v => (Predicate.comparison? column r v).map .single
  | isNull column => some (.single (.isNull column))
  | isNotNull column => some (.single (.isNotNull column))
  | deleted => some (.single (.relation ⟨table, deletedColumn⟩ .eq (Value.boolText true)))
  | notDeleted => some (.single (.relation ⟨table, deletedColumn⟩ .ne (Value.boolText true)))
  | between column low high =>
    match Predicate.comparison? column .ge low,
      high.bind fun h => Predicate.comparison? column h.relation h.value with
    | some l, some h => some (.range l h)
    | some l, none => some (.single l)
    | none, some h => some (.single h)
    | none, none => none
  | joinBy _ => none

namespace Predicate

variable {p : Predicate}

/-- **All that a call can do**: leave a connective pending, or append what is kept of it. -/
theorem apply_cases (p : Predicate) (call : PredicateCall) :
    (∃ conn, call = .joinBy conn ∧ p.apply call = p.joinBy conn) ∨
      p.apply call = p.append? (call.criterion? p.table) := by
  cases call with
  | joinBy conn => exact .inl ⟨conn, rfl, rfl⟩
  | compare | isNull | isNotNull | between => exact .inr rfl
  | deleted | notDeleted =>
    -- The value of the flag is no empty text, so the comparison is kept.
    exact .inr rfl

/-- The criteria of a predicate, in order. -/
def criteria (p : Predicate) : List Criterion :=
  match p.condition with
  | some c => c.criteria
  | none => []

@[simp] theorem criteria_joinBy (conn : Connective) : (p.joinBy conn).criteria = p.criteria := rfl

@[simp] theorem table_joinBy (conn : Connective) : (p.joinBy conn).table = p.table := rfl

@[simp] theorem table_append (c : Criterion) : (p.append c).table = p.table := by
  unfold append
  split <;> rfl

@[simp] theorem criteria_append (c : Criterion) : (p.append c).criteria = p.criteria ++ [c] := by
  unfold append
  cases h : p.condition with
  | none => simp [criteria, h, Condition.criteria]
  | some before => simp [criteria, h, Condition.criteria]

@[simp] theorem table_append? (c : Option Criterion) : (p.append? c).table = p.table := by
  cases c with
  | none => rfl
  | some c => exact table_append c

@[simp] theorem criteria_append? (c : Option Criterion) :
    (p.append? c).criteria = p.criteria ++ c.toList := by
  cases c with
  | none => simp [append?]
  | some c => exact criteria_append c

theorem table_apply (call : PredicateCall) : (p.apply call).table = p.table := by
  rcases p.apply_cases call with ⟨conn, -, happly⟩ | happly
  · rw [happly, table_joinBy]
  · rw [happly, table_append?]

theorem criteria_apply (call : PredicateCall) :
    (p.apply call).criteria = p.criteria ++ (call.criterion? p.table).toList := by
  rcases p.apply_cases call with ⟨conn, rfl, happly⟩ | happly
  · simp [happly, PredicateCall.criterion?]
  · rw [happly, criteria_append?]

/-! ## 2. Calls in order -/

theorem table_foldl_apply (calls : List PredicateCall) (p : Predicate) :
    (calls.foldl apply p).table = p.table := by
  induction calls generalizing p with
  | nil => rfl
  | cons call calls ih => rw [List.foldl_cons, ih, table_apply]

@[simp] theorem table_ofCalls (table : String) (calls : List PredicateCall) :
    (ofCalls table calls).table = table :=
  table_foldl_apply ..

theorem criteria_foldl_apply (calls : List PredicateCall) (p : Predicate) :
    (calls.foldl apply p).criteria = p.criteria ++ calls.filterMap (·.criterion? p.table) := by
  induction calls generalizing p with
  | nil => simp
  | cons call calls ih =>
    rw [List.foldl_cons, ih, criteria_apply, table_apply, List.append_assoc,
      List.filterMap_cons]
    cases call.criterion? p.table <;> rfl

/-- **A predicate is made of what was kept of the calls**, in their order. -/
theorem criteria_ofCalls (table : String) (calls : List PredicateCall) :
    (ofCalls table calls).criteria = calls.filterMap (·.criterion? table) :=
  criteria_foldl_apply calls (empty table)

end Predicate

/-! ## 3. Names and texts -/

theorem Comparison.text_ne_empty (x : Comparison) : x.text ≠ "" := by
  simp [text, ColumnRef.text]

/-- A condition has a text. -/
theorem Condition.text_ne_empty (c : Condition) : c.text ≠ "" := by
  cases c with
  | first c =>
    cases c with
    | single x => exact x.text_ne_empty
    | range low high => simp [text, Criterion.text]
  | joined before conn c => simp [text]

section Names

variable {P : String → Prop}

/-- A column whose two names have a property. -/
def ColumnRef.Over (P : String → Prop) (c : ColumnRef) : Prop := P c.table ∧ P c.name

instance [DecidablePred P] (c : ColumnRef) : Decidable (c.Over P) :=
  inferInstanceAs (Decidable (_ ∧ _))

/-- A call whose names have a property. -/
def PredicateCall.Over (P : String → Prop) : PredicateCall → Prop
  | compare column _ _ => column.Over P
  | isNull column => column.Over P
  | isNotNull column => column.Over P
  | between column _ _ => column.Over P
  | deleted => True
  | notDeleted => True
  | joinBy _ => True

instance [DecidablePred P] : (call : PredicateCall) → Decidable (call.Over P)
  | .compare column _ _ => inferInstanceAs (Decidable (column.Over P))
  | .isNull column => inferInstanceAs (Decidable (column.Over P))
  | .isNotNull column => inferInstanceAs (Decidable (column.Over P))
  | .between column _ _ => inferInstanceAs (Decidable (column.Over P))
  | .deleted => .isTrue trivial
  | .notDeleted => .isTrue trivial
  | .joinBy _ => .isTrue trivial

/-- A criterion whose names have a property. -/
def Criterion.Over (P : String → Prop) (c : Criterion) : Prop :=
  ∀ x ∈ c.comparisons, x.column.Over P

theorem column_of_comparison? {column : ColumnRef} {r : Relation} {v : Value} {c : Comparison}
    (h : Predicate.comparison? column r v = some c) : c.column = column := by
  obtain ⟨bound, -, rfl⟩ := Option.map_eq_some_iff.mp h
  rfl

theorem Criterion.over_single {c : Comparison} (h : c.column.Over P) :
    (Criterion.single c).Over P := by
  simpa [Over, comparisons] using h

theorem Criterion.over_range {low high : Comparison} (hlow : low.column.Over P)
    (hhigh : high.column.Over P) : (Criterion.range low high).Over P := by
  simpa [Over, comparisons] using ⟨hlow, hhigh⟩

/-- What is kept of a call has its names, or those of the flag of the table. -/
theorem PredicateCall.Over.criterion {table : String} {call : PredicateCall} {c : Criterion}
    (h : call.Over P) (htable : P table) (hflag : P deletedColumn)
    (hc : call.criterion? table = some c) : c.Over P := by
  cases call with
  | compare column r v =>
    obtain ⟨x, hx, rfl⟩ := Option.map_eq_some_iff.mp hc
    exact Criterion.over_single (column_of_comparison? hx ▸ h)
  | isNull column =>
    obtain rfl := Option.some.inj hc
    exact Criterion.over_single h
  | isNotNull column =>
    obtain rfl := Option.some.inj hc
    exact Criterion.over_single h
  | deleted =>
    obtain rfl := Option.some.inj hc
    exact Criterion.over_single ⟨htable, hflag⟩
  | notDeleted =>
    obtain rfl := Option.some.inj hc
    exact Criterion.over_single ⟨htable, hflag⟩
  | joinBy conn => exact absurd hc (by simp [criterion?])
  | between column low high =>
    simp only [criterion?] at hc
    split at hc
    case h_1 l u hl hu =>
      obtain rfl := Option.some.inj hc
      obtain ⟨bound, -, hbound⟩ := Option.bind_eq_some_iff.mp hu
      exact Criterion.over_range (column_of_comparison? hl ▸ h)
        (column_of_comparison? hbound ▸ h)
    case h_2 l hl _ =>
      obtain rfl := Option.some.inj hc
      exact Criterion.over_single (column_of_comparison? hl ▸ h)
    case h_3 u _ hu =>
      obtain rfl := Option.some.inj hc
      obtain ⟨bound, -, hbound⟩ := Option.bind_eq_some_iff.mp hu
      exact Criterion.over_single (column_of_comparison? hbound ▸ h)
    case h_4 => exact absurd hc (by simp)

/-- **The names of a predicate are those of its calls**, of its table, and of the flag. -/
theorem over_ofCalls {table : String} {calls : List PredicateCall} (htable : P table)
    (hflag : P deletedColumn) (hcalls : ∀ call ∈ calls, call.Over P) :
    ∀ c ∈ (Predicate.ofCalls table calls).criteria, c.Over P := by
  intro c hc
  rw [Predicate.criteria_ofCalls, List.mem_filterMap] at hc
  obtain ⟨call, hcall, hkept⟩ := hc
  exact (hcalls call hcall).criterion htable hflag hkept

end Names

end Tabula.Query
