/-
# What a session remembers

A session is changed by sixteen kinds of steps.  Some replace what an earlier one said, some add to
it, and some make the session forget everything but its table.  What is left in the end is little:
since the session last forgot (`recent`), the last condition, the last condition on groups and the
last order, all joins, projections and groups, the last offset, the last limit, and whether the last
rows were ever asked for (`Memory`).

* `after_eq_session`: what is left of the steps is all that the session holds after them.
* `after_steps`: a fresh session that makes only what is left holds the same.
* `journal_step`: what a step hands to the engine is compiled from the session as it stood before,
  and nothing reaches the engine if it fails or if there is no statement.
* `remembers_of_run`: all of this, for every run.
-/
import Mathlib.Data.List.DropRight
import Tabula.Query.Script

namespace Tabula.Query

variable {ε : Type}

/-! ## 1. Sessions and journals after steps -/

namespace Session

variable {s : Session}

/-- The journal has no say in what becomes of a session. -/
theorem session_step (journal journal' : Journal) (step : Step ε) :
    (s.step journal step).2.1 = (s.step journal' step).2.1 := by
  cases step <;> rfl

theorem session_run (journal journal' : Journal) (steps : List (Step ε)) :
    (s.run journal steps).2.1 = (s.run journal' steps).2.1 := by
  induction steps generalizing s journal journal' with
  | nil => rfl
  | cons step steps ih =>
    simp only [run, s.session_step journal journal' step]
    exact ih _ _

/-- More steps go on where the others ended. -/
theorem run_append (steps more : List (Step ε)) (journal : Journal) :
    (s.run journal (steps ++ more)).2 =
      ((s.run journal steps).2.1.run (s.run journal steps).2.2 more).2 := by
  induction steps generalizing s journal with
  | nil => rfl
  | cons step steps ih => exact ih _

/-- The session after some steps. -/
def after (s : Session) (steps : List (Step ε)) : Session := (s.run [] steps).2.1

/-- What the engine recorded during some steps. -/
def journalAfter (s : Session) (steps : List (Step ε)) : Journal := (s.run [] steps).2.2

@[simp] theorem after_nil : s.after ([] : List (Step ε)) = s := rfl

theorem after_cons (step : Step ε) (steps : List (Step ε)) :
    s.after (step :: steps) = (s.step [] step).2.1.after steps :=
  session_run _ _ steps

theorem after_append (steps more : List (Step ε)) :
    s.after (steps ++ more) = (s.after steps).after more := by
  unfold after
  rw [run_append]
  exact session_run _ _ more

theorem journalAfter_append_singleton (steps : List (Step ε)) (step : Step ε) :
    s.journalAfter (steps ++ [step]) = ((s.after steps).step (s.journalAfter steps) step).2.2 := by
  unfold journalAfter
  rw [run_append]
  rfl

end Session

/-! ## 2. What is left of steps -/

/-- Columns that are selected, and the join that brings their table in, if there is one. -/
structure Addition where
  join : Option Join
  projection : Projection

/-- The step that makes an addition. -/
def Addition.step : Addition → Step ε
  | ⟨some j, projection⟩ => .join j projection
  | ⟨none, projection⟩ => .project projection

namespace Step

/-- Whether a step makes the session forget. -/
def forgets : Step ε → Bool
  | get _ | set _ | reset => true
  | _ => false

/-- The condition on rows that a step states. -/
def find? : Step ε → Option (List PredicateCall)
  | find calls => some calls
  | _ => none

/-- The condition on groups that a step states. -/
def having? : Step ε → Option (List PredicateCall)
  | having calls => some calls
  | _ => none

/-- The order that a step states. -/
def order? : Step ε → Option Order
  | order o => some o
  | _ => none

/-- What a step adds to the selected columns. -/
def addition? : Step ε → Option Addition
  | join j projection => some ⟨some j, projection⟩
  | project projection => some ⟨none, projection⟩
  | _ => none

/-- The column that a step groups by. -/
def groupBy? : Step ε → Option ColumnRef
  | groupBy column => some column
  | _ => none

/-- The number of rows that a step skips. -/
def offset? : Step ε → Option UInt64
  | offset n => some n
  | _ => none

/-- The number of rows that a step asks for, be they the first ones or the last. -/
def limit? : Step ε → Option UInt64
  | limit n | last n => some n
  | _ => none

/-- Whether a step asks for the last rows. -/
def isLast : Step ε → Bool
  | last _ => true
  | _ => false

theorem isSome_limit?_of_isLast {step : Step ε} (h : step.isLast = true) :
    step.limit?.isSome = true := by
  cases step with
  | last => rfl
  | find | having | order | join | project | groupBy | limit | offset | reset | selection | get
  | peek | insert | runInsert | set => exact absurd h Bool.false_ne_true

end Step

/-- The steps since the session last forgot. -/
def recent (steps : List (Step ε)) : List (Step ε) := steps.rtakeWhile fun step => !step.forgets

/-- What the last step that states something of a kind states. -/
def lastOf {α : Type} (part : Step ε → Option α) (steps : List (Step ε)) : Option α :=
  (steps.filterMap part).getLast?

/-- What a session remembers.  It never asks for the last rows without saying how many. -/
structure Memory where
  find : Option (List PredicateCall)
  having : Option (List PredicateCall)
  order : Option Order
  additions : List Addition
  groups : List ColumnRef
  offset : Option UInt64
  limit : Option UInt64
  last : Bool
  isSome_limit : last = true → limit.isSome = true

theorem filterMap_append_singleton {α : Type} (part : Step ε → Option α) (steps : List (Step ε))
    (step : Step ε) :
    (steps ++ [step]).filterMap part = steps.filterMap part ++ (part step).toList := by
  cases h : part step <;> simp [h]

theorem lastOf_append_singleton {α : Type} (part : Step ε → Option α) (steps : List (Step ε))
    (step : Step ε) : lastOf part (steps ++ [step]) = (part step).or (lastOf part steps) := by
  unfold lastOf
  rw [filterMap_append_singleton, List.getLast?_append]
  cases part step <;> rfl

/-- Where the last rows are asked for, their number is. -/
theorem isSome_lastOf_limit? {steps : List (Step ε)} (h : steps.any Step.isLast = true) :
    (lastOf Step.limit? steps).isSome = true := by
  obtain ⟨step, hstep, hlast⟩ := List.any_eq_true.mp h
  obtain ⟨n, hn⟩ := Option.isSome_iff_exists.mp (Step.isSome_limit?_of_isLast hlast)
  have hmem : n ∈ steps.filterMap Step.limit? := List.mem_filterMap.mpr ⟨step, hstep, hn⟩
  unfold lastOf
  rw [List.getLast?_isSome]
  exact List.ne_nil_of_mem hmem

namespace Memory

/-- What is left of steps. -/
def ofSteps (steps : List (Step ε)) : Memory where
  find := lastOf Step.find? steps
  having := lastOf Step.having? steps
  order := lastOf Step.order? steps
  additions := steps.filterMap Step.addition?
  groups := steps.filterMap Step.groupBy?
  offset := lastOf Step.offset? steps
  limit := lastOf Step.limit? steps
  last := steps.any Step.isLast
  isSome_limit := isSome_lastOf_limit?

/-- The session over a table that holds nothing but what is remembered. -/
def session (m : Memory) (table : String) : Session where
  table := table
  graph := .ofJoins table (m.additions.filterMap (·.join))
  projections := m.additions.map (·.projection)
  predicate := m.find.map (.ofCalls table)
  order := m.order
  groupBy := m.groups.map (·.text)
  having := m.having.map (.ofCalls table)
  limit := m.limit.getD 0
  offset := m.offset.getD 0
  last := m.last

/-- Steps that say what is remembered, each thing once. -/
def steps (m : Memory) : List (Step ε) :=
  m.find.toList.map .find ++ m.having.toList.map .having ++ m.order.toList.map .order ++
    m.additions.map Addition.step ++ m.groups.map .groupBy ++ m.offset.toList.map .offset ++
    m.limit.toList.map (if m.last then .last else .limit)

/-! ## 3. What a session holds -/

/-- **A step that does not make the session forget** is remembered with those before it. -/
theorem step_session (table : String) (steps : List (Step ε)) {step : Step ε}
    (h : step.forgets = false) :
    (((ofSteps steps).session table).step [] step).2.1 =
      (ofSteps (steps ++ [step])).session table := by
  simp only [ofSteps, session, lastOf_append_singleton, filterMap_append_singleton, List.any_append]
  simp only [List.filterMap_append, List.map_append, JoinGraph.ofJoins, List.foldl_append]
  cases step with
  | get | set | reset => exact absurd h (by simp [Step.forgets])
  | find | having | order | limit | offset | last | selection | peek | insert | runInsert =>
    simp [Session.step, Step.find?, Step.having?, Step.order?, Step.addition?, Step.groupBy?,
      Step.offset?, Step.limit?, Step.isLast, Session.find, Session.haveGroups, Session.orderBy,
      Session.withLimit, Session.withOffset, Session.withLast]
  | join | project | groupBy =>
    simp [Session.step, Step.find?, Step.having?, Step.order?, Step.addition?, Step.groupBy?,
      Step.offset?, Step.limit?, Step.isLast, Session.addJoin, Session.project, Session.addGroup]

/-- **What is left of the steps is all that the session holds after them.** -/
theorem after_eq_session (table : String) (steps : List (Step ε)) :
    (Session.fresh table).after steps = (ofSteps (recent steps)).session table := by
  induction steps using List.reverseRecOn with
  | nil => rfl
  | append_singleton steps step ih =>
    rw [Session.after_append, ih, Session.after_cons, Session.after_nil]
    unfold recent
    rw [List.rtakeWhile_concat]
    cases h : step.forgets with
    | false => exact step_session table _ h
    | true =>
      -- Whatever the session held, it now holds its table only.
      cases step with
      | get | set | reset => rfl
      | find | having | order | join | project | groupBy | limit | offset | last | selection | peek
      | insert | runInsert => exact absurd h Bool.false_ne_true

/-! ## 4. Making only what is left -/

section Replay

variable {s : Session}

theorem after_find (calls : Option (List PredicateCall)) :
    s.after (calls.toList.map (.find : _ → Step ε)) =
      { s with predicate := (calls.map (.ofCalls s.table)).or s.predicate } := by
  cases calls <;> rfl

theorem after_having (calls : Option (List PredicateCall)) :
    s.after (calls.toList.map (.having : _ → Step ε)) =
      { s with having := (calls.map (.ofCalls s.table)).or s.having } := by
  cases calls <;> rfl

theorem after_order (order : Option Order) :
    s.after (order.toList.map (.order : _ → Step ε)) = { s with order := order.or s.order } := by
  cases order <;> rfl

theorem after_additions (additions : List Addition) :
    s.after (additions.map (Addition.step : _ → Step ε)) =
      { s with
        graph := (additions.filterMap (·.join)).foldl .add s.graph
        projections := s.projections ++ additions.map (·.projection) } := by
  induction additions generalizing s with
  | nil => simp
  | cons a additions ih =>
    rw [List.map_cons, Session.after_cons, ih]
    obtain ⟨join, projection⟩ := a
    cases join <;> simp [Addition.step, Session.step, Session.addJoin, Session.project]

theorem after_groups (groups : List ColumnRef) :
    s.after (groups.map (.groupBy : _ → Step ε)) =
      { s with groupBy := s.groupBy ++ groups.map (·.text) } := by
  induction groups generalizing s with
  | nil => simp
  | cons column groups ih =>
    rw [List.map_cons, Session.after_cons, ih]
    simp [Session.step, Session.addGroup]

theorem after_offset (n : Option UInt64) :
    s.after (n.toList.map (.offset : _ → Step ε)) = { s with offset := n.getD s.offset } := by
  cases n <;> rfl

theorem after_limit {n : Option UInt64} {last : Bool} (h : last = true → n.isSome = true) :
    s.after (n.toList.map (if last then (.last : _ → Step ε) else .limit)) =
      { s with limit := n.getD s.limit, last := last || s.last } := by
  cases n with
  | none =>
    obtain rfl : last = false := by simpa using h
    rfl
  | some n => cases last <;> rfl

/-- **A fresh session that makes only the steps that are left** holds what is remembered. -/
theorem after_steps (m : Memory) (table : String) :
    (Session.fresh table).after (m.steps : List (Step ε)) = m.session table := by
  unfold steps
  rw [Session.after_append, Session.after_append, Session.after_append, Session.after_append,
    Session.after_append, Session.after_append, after_find, after_having, after_order,
    after_additions, after_groups, after_offset, after_limit m.isSome_limit]
  simp [Session.fresh, session, JoinGraph.ofJoins]

end Replay

end Memory

/-! ## 5. What reaches the engine -/

/-- What the engine records when it is handed a statement: nothing if it fails, or if there is
none. -/
def recorded (fault : Option ε) (statement : Except QueryError Statement) : Journal :=
  match fault, statement with
  | none, .ok st => [st]
  | _, _ => []

/-- What the engine records during a use of a mutation. -/
def Mutation.recorded (m : Mutation) : MutationStep ε → Journal
  | .runUpdate columns values fault => Query.recorded fault (m.updateStatement columns values)
  | .runDelete fault => Query.recorded fault (.ok m.deleteStatement)
  | .update _ _ | .delete => []

/-- What the engine records during a step. -/
def Session.recorded (s : Session) : Step ε → Journal
  | .get fault | .peek fault => Query.recorded fault s.selectStatement
  | .runInsert columns values fault => Query.recorded fault (s.insertStatement columns values)
  | .set steps => steps.flatMap s.set.1.recorded
  | _ => []

theorem journal_runStatement (fault : Option ε) (statement : Except QueryError Statement)
    (journal : Journal) :
    (runStatement (record fault) statement journal).2 = journal ++ recorded fault statement := by
  cases statement <;> cases fault <;> simp [runStatement, record, recorded]

theorem Mutation.journal_step (m : Mutation) (journal : Journal) (step : MutationStep ε) :
    (m.step journal step).2 = journal ++ m.recorded step := by
  cases step with
  | update | delete => exact (List.append_nil journal).symm
  | runUpdate columns values fault =>
    exact journal_runStatement fault (m.updateStatement columns values) journal
  | runDelete fault => exact journal_runStatement fault (.ok m.deleteStatement) journal

theorem Mutation.journal_steps (m : Mutation) (journal : Journal) (steps : List (MutationStep ε)) :
    (m.steps steps journal).2 = journal ++ steps.flatMap m.recorded := by
  induction steps generalizing journal with
  | nil => simp [Mutation.steps]
  | cons step steps ih =>
    simp only [Mutation.steps, ih, m.journal_step, List.flatMap_cons, List.append_assoc]

/-- **What a step hands to the engine is compiled from the session before the step.** -/
theorem Session.journal_step (s : Session) (journal : Journal) (step : Step ε) :
    (s.step journal step).2.2 = journal ++ s.recorded step := by
  cases step with
  | get | peek | runInsert => exact journal_runStatement _ _ journal
  | set steps => exact s.set.1.journal_steps journal steps
  | find | having | order | join | project | groupBy | limit | offset | last | reset | selection
  | insert => exact (List.append_nil journal).symm

/-! ## 6. Every run -/

/-- **Sessions forget and replace, and nothing else gets lost or stays.**  After any steps, whether or
not the engine failed at some of them, a session compiles the SELECT that a fresh one over its table
compiles after only what is left of them.  Each further step hands to the engine what is compiled from
the session as it stands; and to look at the rows or to insert one leaves the session as it is. -/
theorem remembers_of_run (table : String) (steps : List (Step ε)) :
    ((Session.fresh table).after steps).selectStatement =
        ((Session.fresh table).after
          ((Memory.ofSteps (recent steps)).steps : List (Step ε))).selectStatement ∧
      (∀ step, (Session.fresh table).journalAfter (steps ++ [step]) =
        (Session.fresh table).journalAfter steps ++
          ((Session.fresh table).after steps).recorded step) ∧
      (∀ fault, (Session.fresh table).after (steps ++ [.peek fault]) =
        (Session.fresh table).after steps) ∧
      (∀ columns values, (Session.fresh table).after (steps ++ [.insert columns values]) =
        (Session.fresh table).after steps) ∧
      ∀ columns values fault,
        (Session.fresh table).after (steps ++ [.runInsert columns values fault]) =
          (Session.fresh table).after steps := by
  refine ⟨?_, fun step => ?_, fun fault => ?_, fun columns values => ?_,
    fun columns values fault => ?_⟩
  · rw [Memory.after_eq_session, Memory.after_steps]
  · rw [Session.journalAfter_append_singleton, Session.journal_step]
  · rw [Session.after_append]
    rfl
  · rw [Session.after_append]
    rfl
  · rw [Session.after_append]
    rfl

/-- A limit replaces the number of last rows, but they stay the last ones. -/
example : (Memory.ofSteps (recent
      [.find [.deleted], .get (some ()), .last 2, .peek none, .offset 1, .limit 5])).steps =
    [Step.offset 1, Step.last (ε := Unit) 5] := rfl

end Tabula.Query
