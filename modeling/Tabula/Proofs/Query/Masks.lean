/-
# Masks

A value is masked by putting one fixed text in its place; what is left of it is whether there is a
value at all.  A comparison has nothing to compare with where its value is NULL or empty text
(`maskBound`); a stored value is missing only where it is NULL (`maskStored`).

A mask changes no text and no number of parameters.  What is made of masked values is what is made
of the values, masked: a predicate (`Predicate.masked_ofCalls`), a query
(`Request.toEngine_masked`), and each statement of a session.
-/
import Tabula.Proofs.Query.Criteria
import Tabula.Query.Session

namespace Tabula.Query

/-! ## 1. Masks -/

/-- The text of every masked value.  A flag is compared with it in any case, so that the calls about
flags need no mask. -/
def mask : String := Value.boolText true

/-- A value that is there exactly if a text is. -/
def maskText : Option String → Value
  | some _ => .text mask
  | none => .null

/-- The mask of a value to compare with. -/
def maskBound (v : Value) : Value := maskText v.boundText?

/-- The mask of a value to store. -/
def maskStored (v : Value) : Value := maskText v.parameter?

theorem maskText_some_ne_null (text : String) : maskText (some text) ≠ .null := by
  simp [maskText]

/-- The mask of a value to compare with says whether it is NULL or empty text. -/
theorem maskBound_eq_null_iff {v : Value} : maskBound v = .null ↔ v = .null ∨ v = .text "" := by
  cases v with
  | null => exact iff_of_true rfl (.inl rfl)
  | text s =>
    by_cases h : s = ""
    · subst h
      exact iff_of_true rfl (.inr rfl)
    · simpa [maskBound, Value.boundText?, h] using maskText_some_ne_null s
  | bool | int | float | date => exact iff_of_false (maskText_some_ne_null _) (by simp)

/-- The mask of a value to store says whether it is NULL. -/
theorem maskStored_eq_null_iff {v : Value} : maskStored v = .null ↔ v = .null := by
  cases v with
  | null => exact iff_of_true rfl rfl
  | bool | int | float | text | date => exact iff_of_false (maskText_some_ne_null _) (by simp)

theorem boundText?_maskBound (v : Value) :
    (maskBound v).boundText? = v.boundText?.map fun _ => mask := by
  have hmask : (Value.text mask).boundText? = some mask := by decide
  unfold maskBound
  cases v.boundText? with
  | none => rfl
  | some text => exact hmask

theorem parameter?_maskStored (v : Value) :
    (maskStored v).parameter? = v.parameter?.map fun _ => mask := by
  unfold maskStored
  cases v.parameter? <;> rfl

theorem slot_maskStored (v : Value) : slot (maskStored v) = slot v := by
  unfold slot
  rw [parameter?_maskStored]
  cases v.parameter? <;> rfl

/-! ## 2. Masked conditions -/

/-- A comparison with its value masked. -/
def Comparison.masked : Comparison → Comparison
  | relation column r _ => relation column r mask
  | isNull column => isNull column
  | isNotNull column => isNotNull column

@[simp] theorem Comparison.text_masked (x : Comparison) : x.masked.text = x.text := by
  cases x <;> rfl

theorem Comparison.bound?_masked (x : Comparison) :
    x.masked.bound? = x.bound?.map fun _ => mask := by
  cases x <;> rfl

/-- A criterion with its values masked. -/
def Criterion.masked : Criterion → Criterion
  | single x => single x.masked
  | range low high => range low.masked high.masked

@[simp] theorem Criterion.text_masked (c : Criterion) : c.masked.text = c.text := by
  cases c <;> simp [masked, text]

@[simp] theorem Criterion.args_masked (c : Criterion) :
    c.masked.args = c.args.map fun _ => mask := by
  have hcomparisons : c.masked.comparisons = c.comparisons.map Comparison.masked := by
    cases c <;> rfl
  have hbound : Comparison.bound? ∘ Comparison.masked =
      fun x : Comparison => x.bound?.map fun _ => mask := funext Comparison.bound?_masked
  rw [args, hcomparisons, List.filterMap_map, hbound, args, List.map_filterMap]

/-- A condition with its values masked. -/
def Condition.masked : Condition → Condition
  | first c => first c.masked
  | joined before conn c => joined before.masked conn c.masked

@[simp] theorem Condition.text_masked (c : Condition) : c.masked.text = c.text := by
  induction c with
  | first c => exact c.text_masked
  | joined before conn c ih => simp [masked, text, ih]

@[simp] theorem Condition.args_masked (c : Condition) :
    c.masked.args = c.args.map fun _ => mask := by
  induction c with
  | first c => exact c.args_masked
  | joined before conn c ih => simp [masked, args, ih]

/-- A finished condition with its values masked. -/
def Selection.masked (s : Selection) : Selection := ⟨s.text, s.args.map fun _ => mask⟩

/-- The upper end of a range, masked. -/
def UpperBound.masked : UpperBound → UpperBound
  | below v => below (maskBound v)
  | upTo v => upTo (maskBound v)

/-- A call with its values masked. -/
def PredicateCall.masked : PredicateCall → PredicateCall
  | compare column r v => compare column r (maskBound v)
  | between column low high => between column (maskBound low) (high.map UpperBound.masked)
  | isNull column => isNull column
  | isNotNull column => isNotNull column
  | deleted => deleted
  | notDeleted => notDeleted
  | joinBy conn => joinBy conn

theorem comparison?_maskBound (column : ColumnRef) (r : Relation) (v : Value) :
    Predicate.comparison? column r (maskBound v) =
      (Predicate.comparison? column r v).map Comparison.masked := by
  unfold Predicate.comparison?
  rw [boundText?_maskBound]
  cases v.boundText? <;> rfl

theorem comparison?_masked (column : ColumnRef) (high : Option UpperBound) :
    ((high.map UpperBound.masked).bind fun h => Predicate.comparison? column h.relation h.value) =
      (high.bind fun h => Predicate.comparison? column h.relation h.value).map
        Comparison.masked := by
  cases high with
  | none => rfl
  | some h =>
    cases h with
    | below v => exact comparison?_maskBound column .lt v
    | upTo v => exact comparison?_maskBound column .le v

/-- What is kept of a masked call is what is kept of the call, masked. -/
theorem PredicateCall.criterion?_masked (table : String) (call : PredicateCall) :
    call.masked.criterion? table = (call.criterion? table).map Criterion.masked := by
  cases call with
  | compare column r v =>
    simp only [masked, criterion?, comparison?_maskBound, Option.map_map]
    rfl
  | between column low high =>
    simp only [masked, criterion?, comparison?_maskBound, comparison?_masked]
    cases Predicate.comparison? column .ge low <;>
      cases high.bind fun h => Predicate.comparison? column h.relation h.value <;> rfl
  | isNull | isNotNull | deleted | notDeleted | joinBy => rfl

namespace Predicate

/-- A predicate with its values masked. -/
def masked (p : Predicate) : Predicate := { p with condition := p.condition.map Condition.masked }

theorem masked_append (p : Predicate) (c : Criterion) :
    (p.append c).masked = p.masked.append c.masked := by
  obtain ⟨table, condition, pending⟩ := p
  cases condition <;> rfl

theorem masked_append? (p : Predicate) (c : Option Criterion) :
    (p.append? c).masked = p.masked.append? (c.map Criterion.masked) := by
  cases c with
  | none => rfl
  | some c => exact p.masked_append c

theorem masked_apply (p : Predicate) (call : PredicateCall) :
    (p.apply call).masked = p.masked.apply call.masked := by
  have hkept := p.masked_append? (call.criterion? p.table)
  rw [← call.criterion?_masked] at hkept
  cases call with
  | joinBy conn => rfl
  | compare | isNull | isNotNull | deleted | notDeleted | between => exact hkept

/-- **To make masked calls is to make the calls and to mask what was made.** -/
theorem masked_ofCalls (table : String) (calls : List PredicateCall) :
    (ofCalls table calls).masked = ofCalls table (calls.map PredicateCall.masked) := by
  have hfoldl : ∀ p : Predicate,
      (calls.foldl apply p).masked = (calls.map PredicateCall.masked).foldl apply p.masked := by
    induction calls with
    | nil =>
      intro p
      rfl
    | cons call calls ih =>
      intro p
      rw [List.map_cons, List.foldl_cons, List.foldl_cons, ih, masked_apply]
  exact hfoldl (empty table)

theorem selection_masked (p : Predicate) : p.masked.selection = p.selection.masked := by
  obtain ⟨table, condition, pending⟩ := p
  cases condition with
  | none => rfl
  | some c => simp [masked, selection, Selection.masked]

end Predicate

/-! ## 3. Masked statements -/

/-- A statement with its parameters masked. -/
def Statement.masked (st : Statement) : Statement := ⟨st.sql, st.params.map fun _ => mask⟩

/-- A filter with its values masked. -/
def Filter.masked : Filter → Filter
  | plain s => plain s.masked
  | rowidIn q => rowidIn { q with selection := q.selection.masked }

@[simp] theorem Filter.text_masked (f : Filter) : f.masked.text = f.text := by
  cases f <;> rfl

@[simp] theorem Filter.args_masked (f : Filter) : f.masked.args = f.args.map fun _ => mask := by
  cases f <;> rfl

/-- A request with its values masked. -/
def Request.masked (r : Request) : Request := { r with selection := r.selection.masked }

/-- A query with its values masked. -/
def EngineQuery.masked (q : EngineQuery) : EngineQuery := { q with filter := q.filter.masked }

theorem Request.filter_masked (r : Request) :
    r.masked.toEngine.filter = r.toEngine.filter.masked := by
  have hneeds : r.masked.needsSubquery = r.needsSubquery := rfl
  unfold toEngine
  rw [hneeds]
  split
  · exact congrArg Filter.rowidIn (r.rowidQuery_withSelection r.selection.masked)
  · rfl

/-- A request that is masked becomes a query that is masked. -/
theorem Request.toEngine_masked (r : Request) : r.masked.toEngine = r.toEngine.masked := by
  rw [EngineQuery.masked, ← r.filter_masked]
  exact r.toEngine_withSelection r.selection.masked

/-- A SELECT with its values masked. -/
def Select.masked (q : Select) : Select :=
  { q with query := q.query.masked, having := q.having.masked }

namespace Select

theorem text_masked (q : Select) : q.masked.text = q.text := by
  unfold text masked EngineQuery.masked
  rw [Filter.text_masked]
  rfl

theorem params_masked (q : Select) : q.masked.params = q.params.map fun _ => mask := by
  have hisNone : q.having.masked.isNone = q.having.isNone := rfl
  unfold params masked EngineQuery.masked
  rw [Filter.args_masked, hisNone, List.map_append]
  split <;> rfl

theorem statement_masked (q : Select) : q.masked.statement = q.statement.map Statement.masked := by
  have hisNone : q.masked.having.isNone = q.having.isNone := rfl
  have hgroupBy : q.masked.groupBy = q.groupBy := rfl
  unfold statement
  rw [hisNone, hgroupBy, written, text_masked, params_masked]
  split <;> rfl

end Select

/-- Columns with their values masked. -/
def maskCells (cells : List (String × Value)) : List (String × Value) :=
  cells.map (Prod.map id maskStored)

theorem pairUp_maskStored (columns : List String) (values : List Value) :
    pairUp .columnsValues columns (values.map maskStored) =
      (pairUp .columnsValues columns values).map maskCells := by
  unfold pairUp
  rw [List.length_map]
  split
  · exact congrArg Except.ok (List.zip_map_right ..)
  · rfl

/-- What is written of cells, apart from their values, is the same under the mask. -/
theorem map_maskCells {β : Type} {f : String × Value → β}
    (h : ∀ name v, f (name, maskStored v) = f (name, v)) (cells : List (String × Value)) :
    (maskCells cells).map f = cells.map f := by
  rw [maskCells, List.map_map]
  exact List.map_congr_left fun c _ => h c.1 c.2

theorem params_maskCells (cells : List (String × Value)) :
    ((maskCells cells).filterMap fun c => c.2.parameter?) =
      (cells.filterMap fun c => c.2.parameter?).map fun _ => mask := by
  have hparameter : (fun c : String × Value => c.2.parameter?) ∘ Prod.map id maskStored =
      fun c => c.2.parameter?.map fun _ => mask := by
    funext c
    exact parameter?_maskStored c.2
  rw [maskCells, List.filterMap_map, hparameter, List.map_filterMap]

theorem statement_insert_masked (table : String) (cells : List (String × Value)) :
    (Insert.mk table (maskCells cells)).statement = (Insert.mk table cells).statement.masked := by
  have hnames : (maskCells cells).map (·.1) = cells.map (·.1) :=
    map_maskCells (fun _ _ => rfl) cells
  have hslots : ((maskCells cells).map fun c => slot c.2) = cells.map fun c => slot c.2 :=
    map_maskCells (fun _ v => slot_maskStored v) cells
  unfold Insert.statement Statement.masked
  rw [hnames, hslots, params_maskCells]

theorem statement_update_masked (q : EngineQuery) (cells : List (String × Value)) :
    (Update.mk q.masked (maskCells cells)).statement = (Update.mk q cells).statement.masked := by
  have hslots : ((maskCells cells).map fun a => a.1 ++ "=" ++ slot a.2) =
      cells.map fun a => a.1 ++ "=" ++ slot a.2 :=
    map_maskCells (fun name v => congrArg (name ++ "=" ++ ·) (slot_maskStored v)) cells
  unfold Update.statement Statement.masked EngineQuery.masked
  rw [hslots, params_maskCells, Filter.text_masked, Filter.args_masked, List.map_append]
  split <;> rfl

theorem deleteStatement_masked (q : EngineQuery) :
    q.masked.deleteStatement = q.deleteStatement.masked := by
  unfold EngineQuery.deleteStatement Statement.masked EngineQuery.masked
  rw [Filter.text_masked, Filter.args_masked]
  split <;> rfl

/-! ## 4. Masked sessions -/

/-- A session with its values masked. -/
def Session.masked (s : Session) : Session :=
  { s with
    predicate := s.predicate.map Predicate.masked
    having := s.having.map Predicate.masked }

/-- A mutation with its values masked. -/
def Mutation.masked (m : Mutation) : Mutation := { m with selection := m.selection.masked }

namespace Session

theorem selection_masked (s : Session) : s.masked.selection = s.selection.masked := by
  unfold selection masked
  cases s.predicate with
  | none => rfl
  | some p => exact p.selection_masked

theorem havingSelection_masked (s : Session) :
    s.masked.havingSelection = s.havingSelection.masked := by
  unfold havingSelection masked
  cases s.having with
  | none => rfl
  | some p => exact p.selection_masked

theorem request_masked (s : Session) : s.masked.request = s.request.masked := by
  unfold request Request.masked
  rw [selection_masked]
  rfl

theorem set_masked (s : Session) : s.masked.set.1 = s.set.1.masked := by
  unfold set Mutation.masked
  rw [selection_masked]
  rfl

theorem find_masked (s : Session) (calls : List PredicateCall) :
    s.masked.find (calls.map PredicateCall.masked) = (s.find calls).masked := by
  unfold find masked
  rw [Option.map_some, Predicate.masked_ofCalls]

theorem haveGroups_masked (s : Session) (calls : List PredicateCall) :
    s.masked.haveGroups (calls.map PredicateCall.masked) = (s.haveGroups calls).masked := by
  unfold haveGroups masked
  rw [Option.map_some, Predicate.masked_ofCalls]

theorem selectStatement_masked (s : Session) :
    s.masked.selectStatement = s.selectStatement.map Statement.masked := by
  unfold selectStatement
  rw [request_masked, Request.toEngine_masked, havingSelection_masked]
  exact Select.statement_masked
    ⟨s.request.toEngine, s.projections, s.groupBy, s.havingSelection⟩

theorem insertStatement_masked (s : Session) (columns : List String) (values : List Value) :
    s.masked.insertStatement columns (values.map maskStored) =
      (s.insertStatement columns values).map Statement.masked := by
  have hfilter : ∀ cells : List (String × Value),
      ((maskCells cells).filter fun c => isInsertable c.1) =
        maskCells (cells.filter fun c => isInsertable c.1) := by
    intro cells
    exact List.filter_map ..
  rw [insertStatement_eq, insertStatement_eq, pairUp_maskStored]
  cases pairUp .columnsValues columns values with
  | error e => rfl
  | ok cells =>
    simp only [Except.map, hfilter, statement_insert_masked]
    rfl

end Session

namespace Mutation

theorem updateStatement_masked (m : Mutation) (columns : List String) (values : List Value) :
    m.masked.updateStatement columns (values.map maskStored) =
      (m.updateStatement columns values).map Statement.masked := by
  have hrequest : m.masked.request .update = (m.request .update).masked := rfl
  rw [updateStatement_eq, updateStatement_eq, pairUp_maskStored, hrequest,
    Request.toEngine_masked]
  cases pairUp .columnsValues columns values with
  | error e => rfl
  | ok cells => exact congrArg Except.ok (statement_update_masked _ cells)

theorem deleteStatement_masked (m : Mutation) :
    m.masked.deleteStatement = m.deleteStatement.masked := by
  have hrequest : m.masked.request .delete = (m.request .delete).masked := rfl
  unfold deleteStatement
  rw [hrequest, Request.toEngine_masked]
  exact Query.deleteStatement_masked _

end Mutation

end Tabula.Query
