/-
# What a session binds

Whatever steps a session has taken, each statement that it compiles has as many placeholders as
parameters, and with the marks of its parameters filled in it is the statement in which every
comparison, assignment and inserted value carries the mark of its own value (`linesUp_of_run`).

The character of a placeholder must be in no name.  This is kept by every step
(`isPlain_step`), and so by a whole run; all else about the run does not matter.
-/
import Tabula.Proofs.Query.LastRows
import Tabula.Proofs.Query.Placeholders
import Tabula.Query.Script

namespace Tabula.Query

/-! ## 1. Runs over plain names -/

/-- A session in whose names no placeholder occurs. -/
structure Session.IsPlain (s : Session) : Prop where
  table : Query.IsPlain s.table
  graph : s.graph.Over Query.IsPlain
  projections : ∀ p ∈ s.projections, p.Over Query.IsPlain
  predicate : ∀ p, s.predicate = some p → ∀ c ∈ p.criteria, c.Over Query.IsPlain
  order : (s.order.getD .empty).Over Query.IsPlain
  groupBy : ∀ column ∈ s.groupBy, Query.IsPlain column
  having : ∀ p, s.having = some p → ∀ c ∈ p.criteria, c.Over Query.IsPlain

/-- A step whose names have a property.  Columns to insert or to set leave the session as it is. -/
def Step.Over {ε : Type} (P : String → Prop) : Step ε → Prop
  | find calls => ∀ call ∈ calls, call.Over P
  | having calls => ∀ call ∈ calls, call.Over P
  | order o => o.Over P
  | join j projection => j.parent.Over P ∧ j.child.Over P ∧ projection.Over P
  | project projection => projection.Over P
  | groupBy column => column.Over P
  | limit _ | offset _ | last _ | reset | selection | get _ | peek _ | insert _ _
  | runInsert _ _ _ | set _ => True

instance {ε : Type} {P : String → Prop} [DecidablePred P] :
    (step : Step ε) → Decidable (step.Over P)
  | .find calls => inferInstanceAs (Decidable (∀ call ∈ calls, call.Over P))
  | .having calls => inferInstanceAs (Decidable (∀ call ∈ calls, call.Over P))
  | .order o => inferInstanceAs (Decidable (o.Over P))
  | .join j projection =>
    inferInstanceAs (Decidable (j.parent.Over P ∧ j.child.Over P ∧ projection.Over P))
  | .project projection => inferInstanceAs (Decidable (projection.Over P))
  | .groupBy column => inferInstanceAs (Decidable (column.Over P))
  | .limit _ | .offset _ | .last _ | .reset | .selection | .get _ | .peek _ | .insert _ _
  | .runInsert _ _ _ | .set _ => .isTrue trivial

section Runs

variable {ε : Type} {s : Session} {table : String}

theorem isPlain_fresh (htable : IsPlain table) : (Session.fresh table).IsPlain where
  table := htable
  graph := ⟨htable, fun _ he => absurd he List.not_mem_nil⟩
  projections := fun _ hp => absurd hp List.not_mem_nil
  predicate := fun _ hp => absurd hp (by simp [Session.fresh])
  order := fun _ hk => absurd hk List.not_mem_nil
  groupBy := fun _ hcolumn => absurd hcolumn List.not_mem_nil
  having := fun _ hp => absurd hp (by simp [Session.fresh])

theorem forall_mem_append_singleton {α : Type} {P : α → Prop} {xs : List α} {x : α}
    (hxs : ∀ y ∈ xs, P y) (hx : P x) : ∀ y ∈ xs ++ [x], P y := by
  intro y hy
  rcases List.mem_append.mp hy with hy | hy
  · exact hxs y hy
  · exact List.mem_singleton.mp hy ▸ hx

/-- **A step over plain names leaves the names of a session plain.** -/
theorem isPlain_step (h : s.IsPlain) {step : Step ε} (hstep : step.Over IsPlain)
    (journal : Journal) : (s.step journal step).2.1.IsPlain := by
  have hreset : s.reset.IsPlain := isPlain_fresh h.table
  have hcriteria : ∀ calls : List PredicateCall, (∀ call ∈ calls, call.Over IsPlain) →
      ∀ p, some (Predicate.ofCalls s.table calls) = some p →
        ∀ c ∈ p.criteria, c.Over IsPlain := by
    intro calls hcalls p hp
    obtain rfl := Option.some.inj hp
    exact over_ofCalls h.table (by decide) hcalls
  cases step with
  | find calls => exact { h with predicate := hcriteria calls hstep }
  | having calls => exact { h with having := hcriteria calls hstep }
  | order o => exact { h with order := hstep }
  | join j projection =>
    obtain ⟨hparent, hchild, hprojection⟩ := hstep
    exact { h with
      graph := h.graph.add hparent hchild
      projections := forall_mem_append_singleton h.projections hprojection }
  | project projection =>
    exact { h with projections := forall_mem_append_singleton h.projections hstep }
  | groupBy column =>
    have hcolumn : IsPlain column.text := ColumnRef.Over.isPlain_text hstep
    exact { h with groupBy := forall_mem_append_singleton h.groupBy hcolumn }
  | limit | offset | last => exact { h with }
  | selection | peek | insert | runInsert => exact h
  | reset | get | set =>
    -- All three end with a fresh session over the same table.
    exact hreset

/-- So does a run. -/
theorem isPlain_run (h : s.IsPlain) {steps : List (Step ε)}
    (hsteps : ∀ step ∈ steps, step.Over IsPlain) (journal : Journal) :
    (s.run journal steps).2.1.IsPlain := by
  induction steps generalizing s journal with
  | nil => exact h
  | cons step steps ih =>
    obtain ⟨hstep, hsteps⟩ := List.forall_mem_cons.mp hsteps
    exact ih (isPlain_step h hstep journal) hsteps _

end Runs

/-! ## 2. Statements with marks -/

/-- The condition of a predicate, if there is one, with its marks. -/
def markedSelection (mark : String → String) : Option Predicate → Selection
  | some p => p.marked mark
  | none => .none

namespace Session

/-- The SELECT of a session with the marks of its conditions. -/
def selectText (s : Session) (mark : String → String) : String :=
  { query := { s.request with selection := markedSelection mark s.predicate }.toEngine
    projections := s.projections
    groupBy := s.groupBy
    having := markedSelection mark s.having : Select }.text

/-- The rows that a session selected, by a condition with its marks. -/
def markedMutation (s : Session) (mark : String → String) : Mutation :=
  { s.set.1 with selection := markedSelection mark s.predicate }

/-- The INSERT of one row with the marks of its values; columns that are never inserted are left
out. -/
def insertText (s : Session) (columns : List String) (values : List Value)
    (mark : String → String) : String :=
  let cells := (columns.zip values).filter fun c => isInsertable c.1
  "INSERT INTO " ++ s.table ++ " (" ++ String.intercalate ", " (cells.map (·.1)) ++
    ") VALUES (" ++ valuesText mark cells ++ ")"

/-- The UPDATE of the selected rows with the marks of its assignments and its condition. -/
def updateText (s : Session) (columns : List String) (values : List Value)
    (mark : String → String) : String :=
  "UPDATE " ++ s.graph.base ++ " SET " ++ assignmentText mark (columns.zip values) ++
    clause "WHERE" ((s.markedMutation mark).request .update).toEngine.filter.text

/-- The DELETE of the selected rows with the marks of its condition. -/
def deleteText (s : Session) (mark : String → String) : String :=
  "DELETE FROM " ++ s.graph.base ++
    clause "WHERE" ((s.markedMutation mark).request .delete).toEngine.filter.text

end Session

/-! ## 3. Statements are aligned -/

theorem Session.written_of_selectStatement {s : Session} {st : Statement}
    (h : s.selectStatement = .ok st) : s.select.written = st := by
  change s.select.statement = .ok st at h
  unfold Select.statement at h
  split at h
  · exact absurd h (by simp)
  · exact Except.ok.inj h

/-- The SELECT that is written: the parameters of WHERE come before those of HAVING, as the clauses
do. -/
theorem aligned_written {q : Select} {filter : (String → String) → Filter}
    {having : (String → String) → Selection} (hsource : q.query.source.Over IsPlain)
    (hprojections : ∀ p ∈ q.projections, p.Over IsPlain)
    (hgroups : ∀ column ∈ q.groupBy, IsPlain column) (horder : IsPlain (q.query.order.getD ""))
    (hfilter : q.query.filter.written.Marks fun mark => (filter mark).written)
    (hhaving : q.having.Marks having) :
    Aligned q.written.sql q.written.params fun mark =>
      ({ q with
        query := { q.query with filter := filter mark }
        having := having mark } : Select).text := by
  have hdistinct : IsPlain (if q.projections.any Projection.distinct then "DISTINCT " else "") := by
    split <;> decide
  have hgroupBy : IsPlain
      (if q.groupBy = [] then "" else " GROUP BY " ++ String.intercalate ", " q.groupBy) := by
    split
    · decide
    · exact (by decide : IsPlain " GROUP BY ").append (isPlain_intercalate (by decide) hgroups)
  have hargs : (if q.having.isNone then [] else q.having.args) = q.having.args := by
    split
    case isTrue hnone => exact (hhaving.args_of_empty (beq_iff_eq.mp hnone)).symm
    case isFalse => rfl
  have hfront := (((by decide : IsPlain "SELECT ").append hdistinct).append
    (isPlain_columnsText hprojections)).append (by decide : IsPlain " FROM ")
  have hwhere := (hfilter.clause (by decide : IsPlain "WHERE")).plain_append
    (hfront.append (isPlain_graphText hsource))
  have hgrouped := (hwhere.append_plain hgroupBy).append
    (hhaving.clause (by decide : IsPlain "HAVING"))
  have hpaged := (hgrouped.append_plain (isPlain_clause (by decide : IsPlain "ORDER BY")
    horder)).append_plain (isPlain_pageText q.query.page)
  rw [Select.written, Select.params, hargs]
  exact hpaged

/-- A change of rows that ends in a condition. -/
theorem aligned_change {q : EngineQuery} {filter : (String → String) → Filter} {text : String}
    {args : List String} {marked : (String → String) → String} (h : Aligned text args marked)
    (hfilter : q.filter.written.Marks fun mark => (filter mark).written) :
    Aligned (text ++ clause "WHERE" q.filter.text)
      (args ++ if q.filter.text = "" then [] else q.filter.args)
      fun mark => marked mark ++ clause "WHERE" (filter mark).text := by
  have hargs : (if q.filter.text = "" then [] else q.filter.args) = q.filter.args := by
    split
    case isTrue hempty => exact (hfilter.args_of_empty hempty).symm
    case isFalse => rfl
  rw [hargs]
  exact h.append (hfilter.clause (by decide : IsPlain "WHERE"))

theorem table_toEngine (r : Request) : r.toEngine.table = r.source.base := by
  unfold Request.toEngine
  split <;> rfl

/-- The joins and the order of a request stay plain. -/
theorem isPlain_toEngine {r : Request} (hsource : r.source.Over IsPlain) (horder : IsPlain r.order) :
    r.toEngine.source.Over IsPlain ∧ IsPlain (r.toEngine.order.getD "") := by
  have hsingle : (JoinGraph.single r.table).Over IsPlain :=
    ⟨hsource.base, fun _ he => absurd he List.not_mem_nil⟩
  have houter : IsPlain (r.outerOrder.getD "") := by
    unfold Request.outerOrder
    split
    · exact (by decide : IsPlain "")
    · rw [Option.getD_some]
      exact isPlain_resolveOrder hsource.base horder
  unfold Request.toEngine
  split
  · refine ⟨?_, houter⟩
    dsimp only
    split
    · exact hsingle
    · exact hsource
  · exact ⟨hsource, houter⟩

namespace Session.IsPlain

variable {s : Session}

theorem marks_predicate (h : s.IsPlain) :
    s.selection.Marks fun mark => markedSelection mark s.predicate := by
  unfold Session.selection
  cases hp : s.predicate with
  | none => exact .none
  | some p => exact Query.marks_predicate (h.predicate p hp)

theorem marks_having (h : s.IsPlain) :
    s.havingSelection.Marks fun mark => markedSelection mark s.having := by
  unfold Session.havingSelection
  cases hp : s.having with
  | none => exact .none
  | some p => exact Query.marks_predicate (h.having p hp)

theorem aligned_select (h : s.IsPlain) :
    Aligned s.select.written.sql s.select.written.params s.selectText := by
  have horder : Query.IsPlain s.request.order := isPlain_orderText h.order
  obtain ⟨hsource, hengine⟩ := isPlain_toEngine (r := s.request) h.graph horder
  have hfilter := marks_filter (r := s.request) h.graph horder h.marks_predicate
  have haligned := aligned_written (q := s.select) hsource h.projections h.groupBy hengine hfilter
    h.marks_having
  have htext : s.selectText = fun mark =>
      ({ s.select with
        query := { s.select.query with
          filter := ({ s.request with
            selection := markedSelection mark s.predicate } : Request).toEngine.filter }
        having := markedSelection mark s.having } : Select).text := by
    funext mark
    unfold Session.selectText
    rw [s.request.toEngine_withSelection]
    rfl
  rw [htext]
  exact haligned

/-- The condition of a change is the condition of the session. -/
theorem marks_change (h : s.IsPlain) (verb : Verb) :
    (s.set.1.request verb).toEngine.filter.written.Marks
      fun mark => ((s.markedMutation mark).request verb).toEngine.filter.written :=
  marks_filter (r := s.set.1.request verb) h.graph (by decide : Query.IsPlain "") h.marks_predicate

theorem aligned_delete (h : s.IsPlain) :
    Aligned s.set.1.deleteStatement.sql s.set.1.deleteStatement.params s.deleteText := by
  have hfront : Query.IsPlain ("DELETE FROM " ++ s.graph.base) :=
    (by decide : Query.IsPlain "DELETE FROM ").append h.graph.base
  have haligned := aligned_change (.of_isPlain hfront) (h.marks_change .delete)
  unfold Mutation.deleteStatement EngineQuery.deleteStatement
  rw [table_toEngine]
  exact haligned

variable {columns : List String} {values : List Value} {st : Statement}

theorem aligned_update (h : s.IsPlain) (hcolumns : ∀ c ∈ columns, Query.IsPlain c)
    (hst : s.set.1.updateStatement columns values = .ok st) :
    Aligned st.sql st.params (s.updateText columns values) := by
  rw [Mutation.updateStatement_eq, map_pairUp_eq_ok_iff] at hst
  obtain ⟨-, rfl⟩ := hst
  have hcells : ∀ a ∈ columns.zip values, Query.IsPlain a.1 := by
    intro a ha
    exact hcolumns a.1 (List.of_mem_zip ha).1
  have hfront : Query.IsPlain ("UPDATE " ++ s.graph.base ++ " SET ") :=
    ((by decide : Query.IsPlain "UPDATE ").append h.graph.base).append (by decide)
  have haligned := aligned_change ((aligned_assignments hcells).plain_append hfront)
    (h.marks_change .update)
  unfold Update.statement
  rw [table_toEngine]
  exact haligned

theorem aligned_insert (h : s.IsPlain) (hcolumns : ∀ c ∈ columns, Query.IsPlain c)
    (hst : s.insertStatement columns values = .ok st) :
    Aligned st.sql st.params (s.insertText columns values) := by
  rw [Session.insertStatement_eq, map_pairUp_eq_ok_iff] at hst
  obtain ⟨-, rfl⟩ := hst
  have hcells : ∀ c ∈ (columns.zip values).filter fun c => isInsertable c.1,
      Query.IsPlain c.1 := by
    intro c hc
    exact hcolumns c.1 (List.of_mem_zip (List.mem_filter.mp hc).1).1
  unfold Session.insertText
  generalize ((columns.zip values).filter fun c => isInsertable c.1) = cells at hcells ⊢
  have hnames : Query.IsPlain (String.intercalate ", " (cells.map (·.1))) := by
    refine isPlain_intercalate (by decide) fun name hname => ?_
    obtain ⟨c, hc, rfl⟩ := List.mem_map.mp hname
    exact hcells c hc
  have hfront := ((((by decide : Query.IsPlain "INSERT INTO ").append h.table).append
    (by decide : Query.IsPlain " (")).append hnames).append (by decide : Query.IsPlain ") VALUES (")
  exact ((aligned_values cells).plain_append hfront).append_plain (by decide)

end Session.IsPlain

/-! ## 4. Every statement of every run -/

/-- **Placeholders and parameters line up.**  After any steps over names in which no placeholder
occurs, each statement that the session compiles has as many placeholders as parameters, and the
`i`-th parameter is the value that belongs to the `i`-th placeholder: whatever mark is given to the
values, filling in the marks of the parameters is to write each value with its mark in place. -/
theorem linesUp_of_run {ε : Type} {table : String} {steps : List (Step ε)} (htable : IsPlain table)
    (hsteps : ∀ step ∈ steps, step.Over IsPlain) (journal : Journal) {s : Session}
    (hs : ((Session.fresh table).run journal steps).2.1 = s) :
    (∀ st, s.selectStatement = .ok st → st.LinesUp s.selectText) ∧
      s.set.1.deleteStatement.LinesUp s.deleteText ∧
      ∀ columns values, (∀ c ∈ columns, IsPlain c) → ∀ st,
        (s.set.1.updateStatement columns values = .ok st →
          st.LinesUp (s.updateText columns values)) ∧
        (s.insertStatement columns values = .ok st →
          st.LinesUp (s.insertText columns values)) := by
  have hplain : s.IsPlain := hs ▸ isPlain_run (isPlain_fresh htable) hsteps journal
  refine ⟨fun st hst => ?_, hplain.aligned_delete.linesUp, fun columns values hcolumns st => ?_⟩
  · obtain rfl := Session.written_of_selectStatement hst
    exact hplain.aligned_select.linesUp
  · exact ⟨fun hst => (hplain.aligned_update hcolumns hst).linesUp,
      fun hst => (hplain.aligned_insert hcolumns hst).linesUp⟩

/-- Groups of notes by their tags, the last two but one: with a value that is left out, a range, a
join and a condition on groups. -/
def digestSteps : List (Step Unit) :=
  [.find [.compare ⟨"notes", "kind"⟩ .eq (.text "a"), .joinBy .or,
     .compare ⟨"notes", "title"⟩ .like (.text ""),
     .between ⟨"notes", "age"⟩ (.text "18") (some (.below (.text "65")))],
   .join ⟨.left, ⟨"notes", "id"⟩, ⟨"tags", "note"⟩⟩ ⟨"tags", ["name"], false⟩,
   .groupBy ⟨"tags", "name"⟩,
   .having [.compare ⟨"tags", "weight"⟩ .gt (.text "3")],
   .last 2,
   .offset 1]

/-- The session after these steps. -/
def digest : Session := ((Session.fresh "notes").run [] digestSteps).2.1

theorem linesUp_digest :
    ∃ select update insert, digest.selectStatement = .ok select ∧
      select.params = ["a", "18", "65", "3"] ∧ select.LinesUp digest.selectText ∧
      digest.set.1.updateStatement ["kind", "age"] [.text "b", .null] = .ok update ∧
      update.params = ["b", "a", "18", "65"] ∧
      update.LinesUp (digest.updateText ["kind", "age"] [.text "b", .null]) ∧
      digest.insertStatement ["rowid", "kind"] [.text "7", .text "c"] = .ok insert ∧
      insert.params = ["c"] ∧ insert.LinesUp (digest.insertText ["rowid", "kind"]
        [.text "7", .text "c"]) ∧
      digest.set.1.deleteStatement.LinesUp digest.deleteText := by
  have hsteps : ∀ step ∈ digestSteps, step.Over IsPlain := by decide
  obtain ⟨hselect, hdelete, hchange⟩ := linesUp_of_run (by decide : IsPlain "notes") hsteps [] rfl
  have hupdate := hchange ["kind", "age"] [.text "b", .null] (by decide)
  have hinsert := hchange ["rowid", "kind"] [.text "7", .text "c"] (by decide)
  refine ⟨_, _, _, rfl, ?_, hselect _ rfl, rfl, ?_, (hupdate _).1 rfl, rfl, ?_, (hinsert _).2 rfl,
    hdelete⟩
  · rfl
  · rfl
  · rfl

end Tabula.Query
