/-
# Connectives between kept calls

A call of AND or OR is about what follows.  The predicate holds it pending until a criterion is
joined to what there is, and calls of which nothing is kept do not touch it.  So the connective
between two neighbours, kept calls with none in between, is the one that was last called for between
them, or AND.

There is one exception.  The first criterion is joined to nothing and leaves the pending connective
where it is, so that an OR called before it comes to stand after it, unless another connective is
called for in time (`Neighbours.Leaks`).

* `Predicate.foldl_apply_dropped`: what calls do of which nothing is kept.
* `Neighbours.records_iff`: the connective between two neighbours.
* `Neighbours.records_called_iff`: when it is the one called for between them.
-/
import Tabula.Proofs.Query.Criteria

namespace Tabula.Query

/-! ## 1. What is pending -/

/-- The connective that a call asks for. -/
def PredicateCall.connective? : PredicateCall → Option Connective
  | joinBy conn => some conn
  | _ => none

/-- The connective that was called for last. -/
def lastCalled (calls : List PredicateCall) : Option Connective :=
  (calls.filterMap (·.connective?)).getLast?

theorem lastCalled_cons (call : PredicateCall) (calls : List PredicateCall) :
    lastCalled (call :: calls) = (lastCalled calls).or call.connective? := by
  cases hconn : call.connective? with
  | none => simp [lastCalled, hconn]
  | some conn => simp [lastCalled, hconn, List.getLast?_cons]

namespace Predicate

variable {p : Predicate} {c : Criterion} {call : PredicateCall} {calls : List PredicateCall}

/-- Makes a connective pending, if there is one. -/
def hold (p : Predicate) (conn : Option Connective) : Predicate :=
  { p with pending := conn.or p.pending }

@[simp] theorem table_hold (conn : Option Connective) : (p.hold conn).table = p.table := rfl

@[simp] theorem condition_hold (conn : Option Connective) :
    (p.hold conn).condition = p.condition := rfl

@[simp] theorem pending_hold (conn : Option Connective) :
    (p.hold conn).pending = conn.or p.pending := rfl

theorem hold_none : p.hold none = p := rfl

theorem hold_hold (conn conn' : Option Connective) :
    (p.hold conn).hold conn' = p.hold (conn'.or conn) := by
  simp [hold, Option.or_assoc]

/-- A call of which nothing is kept can only make a connective pending. -/
theorem apply_dropped (h : call.criterion? p.table = none) :
    p.apply call = p.hold call.connective? := by
  rcases p.apply_cases call with ⟨conn, rfl, happly⟩ | happly
  · exact happly
  · cases call with
    | joinBy conn => rfl
    | compare | isNull | isNotNull | deleted | notDeleted | between =>
      rw [happly, h]
      rfl

/-- **Calls of which nothing is kept** make the connective pending that was called for last. -/
theorem foldl_apply_dropped (h : ∀ call ∈ calls, call.criterion? p.table = none) :
    calls.foldl apply p = p.hold (lastCalled calls) := by
  induction calls generalizing p with
  | nil => exact hold_none.symm
  | cons call calls ih =>
    obtain ⟨hcall, hcalls⟩ := List.forall_mem_cons.mp h
    rw [List.foldl_cons, apply_dropped hcall, ih (p := p.hold call.connective?) hcalls, hold_hold,
      lastCalled_cons]

theorem apply_kept (h : call.criterion? p.table = some c) : p.apply call = p.append c := by
  rcases p.apply_cases call with ⟨conn, rfl, -⟩ | happly
  · exact absurd h (by simp [PredicateCall.criterion?])
  · rw [happly, h]
    rfl

/-! ## 2. What is recorded -/

/-- A further criterion is recorded after the pending connective, and nothing is pending then. -/
theorem nodes_append {before : Condition} (h : p.condition = some before) :
    (p.append c).nodes = p.nodes ++ [.group, .connective (p.pending.getD .and)] ++ c.nodes := by
  simp [append, nodes, h, Condition.nodes]

theorem pending_append {before : Condition} (h : p.condition = some before) :
    (p.append c).pending = none := by
  simp [append, h]

/-- The first criterion leaves pending what is. -/
theorem pending_append_first (h : p.condition = none) : (p.append c).pending = p.pending := by
  simp [append, h]

theorem exists_condition_append (p : Predicate) (c : Criterion) :
    ∃ after, (p.append c).condition = some after := by
  cases h : p.condition with
  | none => exact ⟨.first c, by simp [append, h]⟩
  | some before => exact ⟨.joined before (p.pending.getD .and) c, by simp [append, h]⟩

theorem exists_condition_iff : (∃ c, p.condition = some c) ↔ p.criteria ≠ [] := by
  cases h : p.condition with
  | none => simp [criteria, h]
  | some c =>
    have hne : c.criteria ≠ [] := by cases c <;> simp [Condition.criteria]
    simp [criteria, h, hne]

/-- A call adds nodes after those that there are. -/
theorem nodes_prefix_apply (p : Predicate) (call : PredicateCall) :
    p.nodes <+: (p.apply call).nodes := by
  rcases hkept : call.criterion? p.table with _ | c
  · rw [apply_dropped hkept]
    exact List.prefix_rfl
  · rw [apply_kept hkept]
    cases h : p.condition with
    | none => simp [nodes, h]
    | some before =>
      rw [nodes_append h, List.append_assoc]
      exact List.prefix_append ..

/-- **What is recorded stays**, whatever is called after it. -/
theorem nodes_prefix_foldl_apply (p : Predicate) (calls : List PredicateCall) :
    p.nodes <+: (calls.foldl apply p).nodes := by
  induction calls generalizing p with
  | nil => exact List.prefix_rfl
  | cons call calls ih => exact (p.nodes_prefix_apply call).trans (ih (p.apply call))

end Predicate

/-! ## 3. Neighbours -/

/-- Two kept calls in a run of calls, with nothing kept of the calls between them. -/
structure Neighbours (table : String) where
  before : List PredicateCall
  earlier : PredicateCall
  between : List PredicateCall
  later : PredicateCall
  after : List PredicateCall
  /-- What is kept of the earlier call. -/
  unit : Criterion
  /-- What is kept of the later call. -/
  next : Criterion
  kept_earlier : earlier.criterion? table = some unit
  kept_later : later.criterion? table = some next
  dropped : ∀ call ∈ between, call.criterion? table = none

namespace Neighbours

variable {table : String} (n : Neighbours table)

/-- All the calls. -/
def calls : List PredicateCall :=
  n.before ++ n.earlier :: (n.between ++ n.later :: n.after)

/-- The predicate just after the earlier of the two calls. -/
def soFar : Predicate := Predicate.ofCalls table (n.before ++ [n.earlier])

/-- The connective that stands between the two, in what all the calls have recorded: it comes after
all that was recorded up to the earlier call, and what is kept of the later call comes after it. -/
def Records (conn : Connective) : Prop :=
  n.soFar.nodes ++ [.group, .connective conn] ++ n.next.nodes <+:
    (Predicate.ofCalls table n.calls).nodes

/-- The connective that was called for between the two: the last one, or AND. -/
def called : Connective := (lastCalled n.between).getD .and

/-- Whether an OR that was called for before the first kept call joins the second one to it. -/
structure Leaks : Prop where
  first : n.before.filterMap (·.criterion? table) = []
  silent : lastCalled n.between = none
  early : lastCalled n.before = some .or

instance : Decidable n.Leaks :=
  decidable_of_iff (n.before.filterMap (·.criterion? table) = [] ∧ lastCalled n.between = none ∧
      lastCalled n.before = some .or)
    ⟨fun ⟨hfirst, hsilent, hearly⟩ => ⟨hfirst, hsilent, hearly⟩,
      fun ⟨hfirst, hsilent, hearly⟩ => ⟨hfirst, hsilent, hearly⟩⟩

theorem soFar_eq : n.soFar = (Predicate.ofCalls table n.before).append n.unit := by
  have hkept : n.earlier.criterion? (Predicate.ofCalls table n.before).table = some n.unit := by
    rw [Predicate.table_ofCalls]
    exact n.kept_earlier
  rw [soFar, Predicate.ofCalls, List.foldl_append]
  exact Predicate.apply_kept hkept

/-- What is pending after the earlier call: nothing, unless it is the first that is kept. -/
theorem pending_soFar : n.soFar.pending =
    if n.before.filterMap (·.criterion? table) = [] then lastCalled n.before else none := by
  have hcriteria := Predicate.criteria_ofCalls table n.before
  rw [soFar_eq]
  split
  case isTrue hnone =>
    have hdropped : ∀ call ∈ n.before, call.criterion? (Predicate.empty table).table = none :=
      List.filterMap_eq_nil_iff.mp hnone
    rw [Predicate.ofCalls, Predicate.foldl_apply_dropped hdropped,
      Predicate.pending_append_first (by rfl), Predicate.pending_hold]
    exact Option.or_none
  case isFalse hsome =>
    obtain ⟨c, hc⟩ := Predicate.exists_condition_iff.mpr (hcriteria ▸ hsome)
    exact Predicate.pending_append hc

theorem ofCalls_calls : Predicate.ofCalls table n.calls = n.after.foldl Predicate.apply
    ((n.soFar.hold (lastCalled n.between)).append n.next) := by
  have htable : n.soFar.table = table := Predicate.table_ofCalls ..
  have hdropped : ∀ call ∈ n.between, call.criterion? n.soFar.table = none := by
    rw [htable]
    exact n.dropped
  have hsplit : n.calls = n.before ++ [n.earlier] ++ n.between ++ [n.later] ++ n.after := by
    simp [calls]
  rw [hsplit, Predicate.ofCalls, List.foldl_append, List.foldl_append, List.foldl_append,
    ← Predicate.ofCalls, ← soFar, Predicate.foldl_apply_dropped hdropped]
  refine congrArg (n.after.foldl Predicate.apply) (Predicate.apply_kept ?_)
  rw [Predicate.table_hold, htable]
  exact n.kept_later

/-- **The connective between two neighbours** is the last one called for between them; else one that
was called for before the first kept call, if that is the earlier of the two; else AND. -/
theorem records_iff (conn : Connective) : n.Records conn ↔
    conn = ((lastCalled n.between).or
      (if n.before.filterMap (·.criterion? table) = [] then lastCalled n.before else none)).getD
        .and := by
  obtain ⟨c, hc⟩ := Predicate.exists_condition_append (Predicate.ofCalls table n.before) n.unit
  rw [← soFar_eq, ← Predicate.condition_hold (lastCalled n.between)] at hc
  rw [← pending_soFar]
  have hrecords : n.Records (((lastCalled n.between).or n.soFar.pending).getD .and) := by
    have hprefix := Predicate.nodes_prefix_foldl_apply
      ((n.soFar.hold (lastCalled n.between)).append n.next) n.after
    rwa [← ofCalls_calls, Predicate.nodes_append hc] at hprefix
  constructor
  · -- Both are the same part of the record.
    intro h
    obtain ⟨rest, hrest⟩ := h
    obtain ⟨rest', hrest'⟩ := hrecords
    have heq := hrest.trans hrest'.symm
    simp only [List.append_assoc, List.append_cancel_left_eq, List.cons_append, List.nil_append,
      List.cons.injEq, Node.connective.injEq, true_and] at heq
    exact heq.1
  · intro h
    rw [h]
    exact hrecords

/-- **When the connective between two neighbours is the one called for between them**: there is one
connective between them, and it is that one unless an OR leaks to them, which was called for before
anything was kept. -/
theorem records_called_iff : ∃ conn, (∀ conn', n.Records conn' ↔ conn' = conn) ∧
    (conn = n.called ↔ ¬n.Leaks) := by
  refine ⟨_, n.records_iff, ?_⟩
  rw [called]
  cases hbetween : lastCalled n.between with
  | some conn =>
    refine iff_of_true rfl ?_
    intro h
    exact absurd (hbetween.symm.trans h.silent) (by simp)
  | none =>
    split
    case isFalse hsome =>
      refine iff_of_true rfl ?_
      intro h
      exact hsome h.first
    case isTrue hfirst =>
      cases hearly : lastCalled n.before with
      | some conn =>
        cases conn with
        | or =>
          refine iff_of_false (by simp) ?_
          intro h
          exact h ⟨hfirst, hbetween, hearly⟩
        | and =>
          refine iff_of_true rfl ?_
          intro h
          exact absurd (hearly.symm.trans h.early) (by simp)
      | none =>
        refine iff_of_true rfl ?_
        intro h
        exact absurd (hearly.symm.trans h.early) (by simp)

/-! ## 4. Two runs of calls -/

/-- An OR between two neighbours, with values that are left out before, between and after them. -/
def sentOrLate : Neighbours "mails" where
  before := [.compare ⟨"mails", "folder"⟩ .eq (.text ""), .joinBy .or]
  earlier := .isNull ⟨"mails", "sent"⟩
  between := [.joinBy .and, .compare ⟨"mails", "topic"⟩ .like (.text ""), .joinBy .or,
    .between ⟨"mails", "size"⟩ (.text "") none]
  later := .between ⟨"mails", "day"⟩ (.text "") (some (.upTo (.text "9")))
  after := [.joinBy .and, .compare ⟨"mails", "topic"⟩ .ne (.text "")]
  unit := .single (.isNull ⟨"mails", "sent"⟩)
  next := .single (.relation ⟨"mails", "day"⟩ .le "9")
  kept_earlier := by decide
  kept_later := by decide
  dropped := by decide

/-- Alternatives of which the first has no value: its OR joins the two conditions that follow. -/
def folderAndDay : Neighbours "mails" where
  before := [.compare ⟨"mails", "folder"⟩ .eq (.text ""), .joinBy .or]
  earlier := .compare ⟨"mails", "topic"⟩ .eq (.text "news")
  between := []
  later := .compare ⟨"mails", "day"⟩ .eq (.text "9")
  after := []
  unit := .single (.relation ⟨"mails", "topic"⟩ .eq "news")
  next := .single (.relation ⟨"mails", "day"⟩ .eq "9")
  kept_earlier := by decide
  kept_later := by decide
  dropped := by decide

theorem records_sentOrLate :
    sentOrLate.called = .or ∧ ∀ conn, sentOrLate.Records conn ↔ conn = .or := by
  have hcalled : sentOrLate.called = .or := by decide
  obtain ⟨conn, hrecords, hiff⟩ := sentOrLate.records_called_iff
  have hconn : conn = .or := (hiff.mpr (by decide)).trans hcalled
  exact ⟨hcalled, hconn ▸ hrecords⟩

/-- **An OR that leaks**: AND is what was called for. -/
theorem records_folderAndDay :
    folderAndDay.called = .and ∧ ¬folderAndDay.Records .and ∧ folderAndDay.Records .or := by
  refine ⟨by decide, ?_, ?_⟩
  · rw [Records]
    decide
  · rw [Records]
    decide

end Neighbours

end Tabula.Query
