/-
# Values stay out of texts

To run masked steps is to run the steps and to mask what is seen (`Session.run_masked`), and a mask
changes no text.  So two runs whose steps are the same under the mask compile the same texts
(`sameTexts_of_run`): whatever the values are, nothing of them gets into a text, and no step depends
on more than whether they are there.
-/
import Mathlib.Data.List.Forall2
import Tabula.Proofs.Query.Masks
import Tabula.Query.Script

namespace Tabula.Query

/-! ## 1. Masked runs -/

section Runs

variable {ε : Type}

/-- A use of a mutation with its values masked. -/
def MutationStep.masked : MutationStep ε → MutationStep ε
  | update columns values => update columns (values.map maskStored)
  | delete => delete
  | runUpdate columns values fault => runUpdate columns (values.map maskStored) fault
  | runDelete fault => runDelete fault

/-- A step with its values masked. -/
def Step.masked : Step ε → Step ε
  | find calls => find (calls.map PredicateCall.masked)
  | having calls => having (calls.map PredicateCall.masked)
  | insert columns values => insert columns (values.map maskStored)
  | runInsert columns values fault => runInsert columns (values.map maskStored) fault
  | set steps => set (steps.map MutationStep.masked)
  | order o => order o
  | join j projection => join j projection
  | project projection => project projection
  | groupBy column => groupBy column
  | limit n => limit n
  | offset n => offset n
  | last n => last n
  | reset => reset
  | selection => selection
  | get fault => get fault
  | peek fault => peek fault

/-- An answer of a mutation with the parameters of its statement masked. -/
def MutationReply.masked : MutationReply ε → MutationReply ε
  | statement s => statement (s.map Statement.masked)
  | answer a => answer a

/-- An answer with the parameters of its statements masked. -/
def Reply.masked : Reply ε → Reply ε
  | nothing => nothing
  | selection s => selection s.masked
  | statement s => statement (s.map Statement.masked)
  | answer a => answer a
  | mutation replies => mutation (replies.map MutationReply.masked)

/-- What is seen after a step, with the parameters masked. -/
def Trace.masked (t : Trace ε) : Trace ε := ⟨t.reply.masked, t.select.map Statement.masked⟩

/-- A journal with the parameters masked. -/
def Journal.masked (journal : Journal) : Journal := journal.map Statement.masked

theorem record_masked (fault : Option ε) (st : Statement) (journal : Journal) :
    record fault st.masked (Journal.masked journal) =
      ((record fault st journal).1, Journal.masked (record fault st journal).2) := by
  cases fault <;> simp [record, Journal.masked]

/-- The recorder counts the same for statements that are masked. -/
theorem runStatement_masked (fault : Option ε) (statement : Except QueryError Statement)
    (journal : Journal) :
    runStatement (record fault) (statement.map Statement.masked) (Journal.masked journal) =
      ((runStatement (record fault) statement journal).1,
        Journal.masked (runStatement (record fault) statement journal).2) := by
  cases statement with
  | error e => rfl
  | ok st => simp only [runStatement, Except.map, record_masked]

theorem Mutation.step_masked (m : Mutation) (journal : Journal) (step : MutationStep ε) :
    m.masked.step (Journal.masked journal) step.masked =
      ((m.step journal step).1.masked, Journal.masked (m.step journal step).2) := by
  cases step with
  | update columns values =>
    simp only [MutationStep.masked, Mutation.step, updateStatement_masked, MutationReply.masked]
  | delete =>
    simp only [MutationStep.masked, Mutation.step, deleteStatement_masked, MutationReply.masked]
    rfl
  | runUpdate columns values fault =>
    have hrun := runStatement_masked fault (m.updateStatement columns values) journal
    rw [← updateStatement_masked] at hrun
    simp only [MutationStep.masked, Mutation.step, Mutation.update, recorder, hrun,
      MutationReply.masked]
  | runDelete fault =>
    have hrun := runStatement_masked fault (.ok m.deleteStatement) journal
    rw [Except.map, ← deleteStatement_masked] at hrun
    simp only [MutationStep.masked, Mutation.step, Mutation.delete, recorder, hrun,
      MutationReply.masked]

theorem Mutation.steps_masked (m : Mutation) (steps : List (MutationStep ε)) (journal : Journal) :
    m.masked.steps (steps.map MutationStep.masked) (Journal.masked journal) =
      ((m.steps steps journal).1.map MutationReply.masked,
        Journal.masked (m.steps steps journal).2) := by
  induction steps generalizing journal with
  | nil => rfl
  | cons step steps ih =>
    simp only [List.map_cons, Mutation.steps, step_masked, ih]

/-- **To make a masked step is to make the step and to mask what is seen.** -/
theorem Session.step_masked (s : Session) (journal : Journal) (step : Step ε) :
    s.masked.step (Journal.masked journal) step.masked =
      ((s.step journal step).1.masked, (s.step journal step).2.1.masked,
        Journal.masked (s.step journal step).2.2) := by
  cases step with
  | find calls =>
    simp only [Step.masked, Session.step, find_masked, selection_masked, Reply.masked]
  | having calls => simp only [Step.masked, Session.step, haveGroups_masked, Reply.masked]
  | order | join | project | groupBy | limit | offset | last | reset => rfl
  | selection => simp only [Step.masked, Session.step, selection_masked, Reply.masked]
  | get fault =>
    -- What is run is the masked statement; the answer is a count, or why there is none.
    have hrun := runStatement_masked fault s.selectStatement journal
    rw [← selectStatement_masked] at hrun
    simp only [Step.masked, Session.step, Session.get, Session.peek, recorder, hrun, Reply.masked]
    rfl
  | peek fault =>
    have hrun := runStatement_masked fault s.selectStatement journal
    rw [← selectStatement_masked] at hrun
    simp only [Step.masked, Session.step, Session.peek, recorder, hrun, Reply.masked]
  | insert columns values =>
    simp only [Step.masked, Session.step, insertStatement_masked, Reply.masked]
  | runInsert columns values fault =>
    have hrun := runStatement_masked fault (s.insertStatement columns values) journal
    rw [← insertStatement_masked] at hrun
    simp only [Step.masked, Session.step, Session.insert, recorder, hrun, Reply.masked]
  | set steps =>
    have hsteps := s.set.1.steps_masked steps journal
    rw [← set_masked] at hsteps
    simp only [Step.masked, Session.step, hsteps, Reply.masked]
    rfl

/-- **To run masked steps is to run the steps and to mask what is seen.** -/
theorem Session.run_masked (s : Session) (journal : Journal) (steps : List (Step ε)) :
    s.masked.run (Journal.masked journal) (steps.map Step.masked) =
      ((s.run journal steps).1.map Trace.masked, (s.run journal steps).2.1.masked,
        Journal.masked (s.run journal steps).2.2) := by
  induction steps generalizing s journal with
  | nil => rfl
  | cons step steps ih =>
    simp only [List.map_cons, Session.run, step_masked, ih, selectStatement_masked, Trace.masked]

end Runs

/-! ## 2. Two runs -/

/-- What two compilations have in common: the text and the number of parameters, or the error. -/
inductive SameText : Except QueryError Statement → Except QueryError Statement → Prop
  | ok {st st' : Statement} (sql : st.sql = st'.sql)
      (params : st.params.length = st'.params.length) : SameText (.ok st) (.ok st')
  | error (e : QueryError) : SameText (.error e) (.error e)

/-- Statements that are the same under the mask have one text and as many parameters. -/
theorem sameText_of_masked {x y : Except QueryError Statement}
    (h : x.map Statement.masked = y.map Statement.masked) : SameText x y := by
  cases x with
  | error e =>
    cases y with
    | error e' =>
      obtain rfl := Except.error.inj h
      exact .error e
    | ok st' => exact absurd h (by simp [Except.map])
  | ok st =>
    cases y with
    | error e' => exact absurd h (by simp [Except.map])
    | ok st' =>
      obtain ⟨hsql, hparams⟩ := Statement.mk.inj (Except.ok.inj h)
      have hlength := congrArg List.length hparams
      rw [List.length_map, List.length_map] at hlength
      exact .ok hsql hlength

/-- Lists that a function makes equal agree element by element. -/
theorem forall₂_of_map_eq {α β : Type} {f : α → β} {R : α → α → Prop}
    (hR : ∀ x y, f x = f y → R x y) {xs ys : List α} (h : xs.map f = ys.map f) :
    List.Forall₂ R xs ys := by
  have heq : List.Forall₂ (fun x y => f x = f y) xs ys := by
    rw [← List.forall₂_map_right_iff, ← List.forall₂_map_left_iff, List.forall₂_eq_eq_eq]
    exact h
  exact heq.imp hR

section TwoRuns

variable {ε : Type}

/-- The statements that a use of a mutation shows. -/
def MutationReply.statements : MutationReply ε → List (Except QueryError Statement)
  | statement s => [s]
  | answer _ => []

/-- What a use of a mutation gets from the engine. -/
def MutationReply.answers : MutationReply ε → List (Except (RunError ε) Nat)
  | statement _ => []
  | answer a => [a]

/-- The statements that a step shows. -/
def Reply.statements : Reply ε → List (Except QueryError Statement)
  | statement s => [s]
  | mutation replies => replies.flatMap MutationReply.statements
  | nothing | selection _ | answer _ => []

/-- What a step gets from the engine; this may be why there is no statement. -/
def Reply.answers : Reply ε → List (Except (RunError ε) Nat)
  | answer a => [a]
  | mutation replies => replies.flatMap MutationReply.answers
  | nothing | selection _ | statement _ => []

/-- The statements that are seen after a step, the SELECT of the session last. -/
def Trace.statements (t : Trace ε) : List (Except QueryError Statement) :=
  t.reply.statements ++ [t.select]

theorem Reply.statements_masked (r : Reply ε) :
    r.masked.statements = r.statements.map (Except.map Statement.masked) := by
  cases r with
  | nothing | selection | statement | answer => rfl
  | mutation replies =>
    simp only [masked, statements, List.flatMap_map, List.map_flatMap]
    congr 1
    funext reply
    cases reply <;> rfl

theorem Reply.answers_masked (r : Reply ε) : r.masked.answers = r.answers := by
  cases r with
  | nothing | selection | statement | answer => rfl
  | mutation replies =>
    simp only [masked, answers, List.flatMap_map]
    congr 1
    funext reply
    cases reply <;> rfl

/-- Two steps of which the same is seen, up to parameters. -/
structure Trace.SameTexts (t t' : Trace ε) : Prop where
  statements : List.Forall₂ SameText t.statements t'.statements
  answers : t.reply.answers = t'.reply.answers

theorem Trace.sameTexts_of_masked {t t' : Trace ε} (h : t.masked = t'.masked) :
    t.SameTexts t' := by
  obtain ⟨hreply, hselect⟩ := Trace.mk.inj h
  have hstatements : t.statements.map (Except.map Statement.masked) =
      t'.statements.map (Except.map Statement.masked) := by
    simp only [Trace.statements, List.map_append, ← Reply.statements_masked, hreply,
      List.map_cons, hselect]
  have hanswers : t.reply.answers = t'.reply.answers := by
    rw [← Reply.answers_masked, hreply, Reply.answers_masked]
  exact ⟨forall₂_of_map_eq (fun _ _ => sameText_of_masked) hstatements, hanswers⟩

/-- **Values never reach a text.**  Let two runs make steps that are the same under the mask: they
differ in values only, and where one has a value to compare with or to store, so has the other.  Then
the runs compile the same texts with as many parameters, or fail in the same way, after each step
and in all that reaches the engine. -/
theorem sameTexts_of_run {table : String} {steps steps' : List (Step ε)}
    (h : steps.map Step.masked = steps'.map Step.masked) :
    List.Forall₂ Trace.SameTexts ((Session.fresh table).run [] steps).1
        ((Session.fresh table).run [] steps').1 ∧
      List.Forall₂ (fun st st' => SameText (.ok st) (.ok st'))
        ((Session.fresh table).run [] steps).2.2 ((Session.fresh table).run [] steps').2.2 := by
  have hrun := (Session.fresh table).run_masked [] steps
  have hrun' := (Session.fresh table).run_masked [] steps'
  rw [h, hrun', Prod.mk.injEq, Prod.mk.injEq] at hrun
  obtain ⟨htraces, -, hjournal⟩ := hrun
  constructor
  · exact forall₂_of_map_eq (fun _ _ => Trace.sameTexts_of_masked) htraces.symm
  · refine forall₂_of_map_eq (fun st st' hst => ?_) hjournal.symm
    exact sameText_of_masked (congrArg Except.ok hst)

/-- A search for notes, a change of what is found, and a new note, each with values. -/
def searchSteps (title : String) (low high age : Value) : List (Step Unit) :=
  [.find [.compare ⟨"notes", "title"⟩ .like (.text title), .joinBy .or,
     .between ⟨"notes", "age"⟩ low (some (.upTo high))],
   .last 5,
   .peek none,
   .set [.update ["age"] [age], .runDelete none],
   .runInsert ["title", "age"] [.text title, age] none]

theorem sameTexts_search :
    List.Forall₂ Trace.SameTexts
        ((Session.fresh "notes").run [] (searchSteps "a%" .null (.int 65) (.int 7))).1
        ((Session.fresh "notes").run []
          (searchSteps "' OR 1=1 --" (.text "") (.bool true) (.text ""))).1 ∧
      List.Forall₂ (fun st st' => SameText (.ok st) (.ok st'))
        ((Session.fresh "notes").run [] (searchSteps "a%" .null (.int 65) (.int 7))).2.2
        ((Session.fresh "notes").run []
          (searchSteps "' OR 1=1 --" (.text "") (.bool true) (.text ""))).2.2 :=
  sameTexts_of_run (by rfl)

end TwoRuns

end Tabula.Query
