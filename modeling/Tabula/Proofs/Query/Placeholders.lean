/-
# Placeholders and parameters

A statement has as many placeholders as parameters, and they belong together in their order.  To
say so, every value is given a mark: a statement is filled with the marks of its parameters, from
left to right (`Statement.fill`), and on the other side each comparison, assignment and inserted
value is written with the mark of its own value in place (`Condition.marked` and its siblings).

The parts of a statement are joined one after the other, and so are their parameters; `Aligned` says
what is kept of this by every part, and `Aligned.append` joins two of them.
-/
import Tabula.Proofs.Query.PlainText

namespace Tabula.Query

/-! ## 1. Filling in marks -/

/-- Writes the marks of parameters in place of placeholders, from left to right. -/
def fill (mark : String → String) : List Char → List String → List Char
  | [], _ => []
  | c :: cs, params =>
    if c = '?' then
      match params with
      | p :: params => (mark p).toList ++ fill mark cs params
      | [] => c :: fill mark cs []
    else c :: fill mark cs params

theorem fill_cons_of_ne {mark : String → String} {c : Char} (h : c ≠ '?') (cs : List Char)
    (params : List String) : fill mark (c :: cs) params = c :: fill mark cs params := by
  cases params <;> simp [fill, h]

/-- The text of a statement with the marks of its parameters in place. -/
def Statement.fill (mark : String → String) (st : Statement) : String :=
  String.ofList (Query.fill mark st.sql.toList st.params)

/-- A statement has as many placeholders as parameters, and filled with their marks it is the text
that was marked from the start. -/
def Statement.LinesUp (st : Statement) (marked : (String → String) → String) : Prop :=
  st.sql.toList.count '?' = st.params.length ∧ ∀ mark, st.fill mark = marked mark

/-- **A text and its parameters are aligned**: there is a parameter for each placeholder, and filling
them in gives the marked text, whatever follows. -/
structure Aligned (text : String) (args : List String) (marked : (String → String) → String) :
    Prop where
  count : text.toList.count '?' = args.length
  fill : ∀ mark rest params, fill mark (text.toList ++ rest) (args ++ params) =
    (marked mark).toList ++ fill mark rest params

namespace Aligned

variable {text text' : String} {args args' : List String}
  {marked marked' : (String → String) → String}

theorem of_isPlain (h : IsPlain text) : Aligned text [] fun _ => text := by
  refine ⟨List.count_eq_zero.mpr h, fun mark rest params => ?_⟩
  -- The parameters wait until the plain characters are through.
  have hfill : ∀ cs : List Char, '?' ∉ cs →
      Query.fill mark (cs ++ rest) params = cs ++ Query.fill mark rest params := by
    intro cs hcs
    induction cs with
    | nil => rfl
    | cons c cs ih =>
      obtain ⟨hc, hcs⟩ := List.ne_and_not_mem_of_not_mem_cons hcs
      rw [List.cons_append, fill_cons_of_ne hc.symm, ih hcs, List.cons_append]
  exact hfill _ h

theorem placeholder (arg : String) : Aligned "?" [arg] fun mark => mark arg :=
  ⟨rfl, fun _ _ _ => rfl⟩

theorem append (h : Aligned text args marked) (h' : Aligned text' args' marked') :
    Aligned (text ++ text') (args ++ args') fun mark => marked mark ++ marked' mark := by
  refine ⟨?_, fun mark rest params => ?_⟩
  · rw [String.toList_append, List.count_append, h.count, h'.count, List.length_append]
  · rw [String.toList_append, List.append_assoc, List.append_assoc, h.fill, h'.fill,
      String.toList_append, List.append_assoc]

/-- Plain text before changes no alignment. -/
theorem plain_append {plain : String} (hplain : IsPlain plain) (h : Aligned text args marked) :
    Aligned (plain ++ text) args fun mark => plain ++ marked mark :=
  (of_isPlain hplain).append h

/-- Nor does plain text after. -/
theorem append_plain {plain : String} (h : Aligned text args marked) (hplain : IsPlain plain) :
    Aligned (text ++ plain) args fun mark => marked mark ++ plain := by
  have happend := h.append (of_isPlain hplain)
  rwa [List.append_nil] at happend

/-- A list of parts, each with its own parameters. -/
theorem intercalate {α : Type} {sep : String} {parts : List α} {text : α → String}
    {args : α → List String} {marked : (String → String) → α → String} (hsep : IsPlain sep)
    (h : ∀ a ∈ parts, Aligned (text a) (args a) fun mark => marked mark a) :
    Aligned (String.intercalate sep (parts.map text)) (parts.flatMap args)
      fun mark => String.intercalate sep (parts.map (marked mark)) := by
  induction parts with
  | nil => simpa using of_isPlain (by decide : IsPlain "")
  | cons a parts ih =>
    obtain ⟨ha, hparts⟩ := List.forall_mem_cons.mp h
    cases parts with
    | nil => simpa using ha
    | cons b parts =>
      simp only [List.map_cons, String.intercalate_cons_cons, List.flatMap_cons] at ih ⊢
      exact (ha.append_plain hsep).append (ih hparts)

/-- Where nothing is written there is no parameter. -/
theorem args_of_empty (h : Aligned "" args marked) : args = [] :=
  List.length_eq_zero_iff.mp h.count.symm

theorem linesUp {st : Statement} (h : Aligned st.sql st.params marked) : st.LinesUp marked := by
  refine ⟨h.count, fun mark => ?_⟩
  have hfill := h.fill mark [] []
  rw [List.append_nil, List.append_nil, Query.fill, List.append_nil] at hfill
  rw [Statement.fill, hfill, String.ofList_toList]

end Aligned

/-! ## 2. Conditions with marks -/

/-- A comparison with the mark of its value in place. -/
def Comparison.marked (mark : String → String) (x : Comparison) : String :=
  x.column.text ++ " " ++ x.operator.text ++
    match x.bound? with
    | some bound => " " ++ mark bound
    | none => ""

/-- A criterion with its marks. -/
def Criterion.marked (mark : String → String) : Criterion → String
  | single x => x.marked mark
  | range low high => low.marked mark ++ " AND " ++ high.marked mark

/-- A condition with its marks. -/
def Condition.marked (mark : String → String) : Condition → String
  | first c => c.marked mark
  | joined before conn c =>
    "(" ++ before.marked mark ++ ") " ++ conn.text ++ " " ++ c.marked mark

/-- The text of a predicate with its marks. -/
def Predicate.marked (mark : String → String) (p : Predicate) : Selection :=
  match p.condition with
  | some c => ⟨c.marked mark, []⟩
  | none => .none

theorem isPlain_operatorText (o : Operator) : IsPlain o.text := by
  cases o with
  | relation r => cases r <;> decide
  | isNull => decide
  | isNotNull => decide

theorem isPlain_connectiveText (conn : Connective) : IsPlain conn.text := by
  cases conn <;> decide

theorem aligned_comparison {x : Comparison} (h : x.column.Over IsPlain) :
    Aligned x.text x.bound?.toList fun mark => x.marked mark := by
  have hfront : IsPlain (x.column.text ++ " " ++ x.operator.text) :=
    (h.isPlain_text.append (by decide)).append (isPlain_operatorText _)
  cases x with
  | relation column r bound =>
    exact .plain_append hfront (.plain_append (by decide : IsPlain " ") (.placeholder bound))
  | isNull column => exact .plain_append hfront (.of_isPlain (by decide : IsPlain ""))
  | isNotNull column => exact .plain_append hfront (.of_isPlain (by decide : IsPlain ""))

theorem aligned_criterion {c : Criterion} (h : c.Over IsPlain) :
    Aligned c.text c.args fun mark => c.marked mark := by
  cases c with
  | single x =>
    have hx := aligned_comparison (h x (by simp [Criterion.comparisons]))
    cases x <;> exact hx
  | range low high =>
    have hlow := aligned_comparison (h low (by simp [Criterion.comparisons]))
    have hhigh := aligned_comparison (h high (by simp [Criterion.comparisons]))
    have hargs : (Criterion.range low high).args = low.bound?.toList ++ high.bound?.toList := by
      cases low <;> cases high <;> rfl
    rw [hargs]
    exact (hlow.append_plain (by decide)).append hhigh

theorem aligned_condition {c : Condition} (h : ∀ x ∈ c.criteria, x.Over IsPlain) :
    Aligned c.text c.args fun mark => c.marked mark := by
  induction c with
  | first c => exact aligned_criterion (h c (by simp [Condition.criteria]))
  | joined before conn c ih =>
    have hbefore := ih fun x hx => h x (by simp [Condition.criteria, hx])
    have hc := aligned_criterion (h c (by simp [Condition.criteria]))
    refine Aligned.append ?_ hc
    exact (((hbefore.plain_append (by decide)).append_plain (by decide)).append_plain
      (isPlain_connectiveText conn)).append_plain (by decide)

/-- A finished condition and the same with marks: they are aligned, and both or none is empty. -/
structure Selection.Marks (s : Selection) (marked : (String → String) → Selection) : Prop where
  aligned : Aligned s.text s.args fun mark => (marked mark).text
  empty_iff : ∀ mark, (marked mark).text = "" ↔ s.text = ""

namespace Selection.Marks

theorem none : Selection.none.Marks fun _ => .none :=
  ⟨.of_isPlain (by decide : IsPlain ""), fun _ => Iff.rfl⟩

theorem args_of_empty {s : Selection} {marked : (String → String) → Selection} (h : s.Marks marked)
    (hempty : s.text = "") : s.args = [] :=
  (hempty ▸ h.aligned).args_of_empty

/-- A clause disappears with its condition, and then there are no parameters. -/
theorem clause {s : Selection} {marked : (String → String) → Selection} {keyword : String}
    (h : s.Marks marked) (hkeyword : IsPlain keyword) :
    Aligned (Query.clause keyword s.text) s.args
      fun mark => Query.clause keyword (marked mark).text := by
  by_cases hempty : s.text = ""
  · have haligned := Aligned.of_isPlain (by decide : IsPlain "")
    simpa [Query.clause, hempty, h.empty_iff, h.args_of_empty hempty] using haligned
  · simp only [Query.clause, hempty, h.empty_iff, if_false]
    exact h.aligned.plain_append (((by decide : IsPlain " ").append hkeyword).append (by decide))

end Selection.Marks

theorem marked_ne_empty (mark : String → String) (c : Condition) : c.marked mark ≠ "" := by
  have hcomparison : ∀ x : Comparison, x.marked mark ≠ "" := by
    intro x
    simp [Comparison.marked, ColumnRef.text]
  cases c with
  | first c =>
    cases c with
    | single x => exact hcomparison x
    | range low high => simp [Condition.marked, Criterion.marked]
  | joined before conn c => simp [Condition.marked]

theorem marks_predicate {p : Predicate} (h : ∀ c ∈ p.criteria, c.Over IsPlain) :
    p.selection.Marks fun mark => p.marked mark := by
  obtain ⟨table, condition, pending⟩ := p
  cases condition with
  | none => exact .none
  | some c =>
    refine ⟨aligned_condition h, fun mark => ?_⟩
    exact iff_of_false (marked_ne_empty mark c) c.text_ne_empty

/-! ## 3. Filters and values with marks -/

/-- The text of a filter and its parameters. -/
def Filter.written (f : Filter) : Selection := ⟨f.text, f.args⟩

theorem aligned_rowidQuery {q : RowidQuery} {marked : (String → String) → Selection}
    (hsource : q.source.Over IsPlain) (horder : IsPlain q.order) (h : q.selection.Marks marked) :
    Aligned q.text q.selection.args
      fun mark => ({ q with selection := marked mark } : RowidQuery).text := by
  have hrowid : IsPlain (rowid q.source.base).text :=
    ColumnRef.Over.isPlain_text ⟨hsource.base, (by decide : IsPlain rowidColumn)⟩
  have hfront : IsPlain ("SELECT " ++ (rowid q.source.base).text ++ " FROM " ++ q.source.text) :=
    (((by decide : IsPlain "SELECT ").append hrowid).append (by decide)).append
      (isPlain_graphText hsource)
  have hwhere := (h.clause (by decide : IsPlain "WHERE")).plain_append hfront
  exact ((hwhere.append_plain (by decide)).append_plain horder).append_plain (isPlain_pageText _)

/-- A subquery is never empty, with or without marks. -/
theorem marks_rowidIn {q : RowidQuery} {marked : (String → String) → Selection}
    (hsource : q.source.Over IsPlain) (horder : IsPlain q.order) (h : q.selection.Marks marked) :
    (Filter.rowidIn q).written.Marks
      fun mark => (Filter.rowidIn { q with selection := marked mark }).written where
  aligned := by
    have hrowid : IsPlain (rowid q.source.base).text :=
      ColumnRef.Over.isPlain_text ⟨hsource.base, (by decide : IsPlain rowidColumn)⟩
    have hquery := aligned_rowidQuery hsource horder h
    exact (hquery.plain_append (hrowid.append (by decide))).append_plain (by decide)
  empty_iff := by
    intro mark
    apply iff_of_false
    · simp [Filter.written, Filter.text]
    · simp [Filter.written, Filter.text]

theorem isPlain_order {r : Request} (hsource : r.source.Over IsPlain) (horder : IsPlain r.order) :
    IsPlain r.rowidQuery.order := by
  simp only [Request.rowidQuery]
  exact isPlain_resolveOrder hsource.base horder

/-- **The marks of a condition become the marks of the filter**, within a subquery, too. -/
theorem marks_filter {r : Request} {marked : (String → String) → Selection}
    (hsource : r.source.Over IsPlain) (horder : IsPlain r.order) (h : r.selection.Marks marked) :
    r.toEngine.filter.written.Marks fun mark =>
      ({ r with selection := marked mark } : Request).toEngine.filter.written := by
  have hneeds : ∀ s, ({ r with selection := s } : Request).needsSubquery = r.needsSubquery := by
    intro s
    rfl
  unfold Request.toEngine
  simp only [hneeds, Request.rowidQuery_withSelection]
  split
  case isTrue => exact marks_rowidIn (q := r.rowidQuery) hsource (isPlain_order hsource horder) h
  case isFalse => exact h

/-- The place of a value with its mark; NULL has none. -/
def slotText (mark : String → String) (v : Value) : String :=
  match v.parameter? with
  | some text => mark text
  | none => "NULL"

theorem aligned_slot (v : Value) :
    Aligned (slot v) v.parameter?.toList fun mark => slotText mark v := by
  unfold slot slotText
  cases v.parameter? with
  | none => exact .of_isPlain (by decide)
  | some text => exact .placeholder text

theorem filterMap_parameter? (cells : List (String × Value)) :
    (cells.filterMap fun c => c.2.parameter?) = cells.flatMap fun c => c.2.parameter?.toList := by
  induction cells with
  | nil => rfl
  | cons c cells ih =>
    rw [List.filterMap_cons, List.flatMap_cons, ← ih]
    cases c.2.parameter? <;> rfl

/-- The text of an UPDATE with its marks, as far as its condition. -/
def assignmentText (mark : String → String) (cells : List (String × Value)) : String :=
  String.intercalate "," (cells.map fun a => a.1 ++ "=" ++ slotText mark a.2)

/-- The values of an INSERT with their marks. -/
def valuesText (mark : String → String) (cells : List (String × Value)) : String :=
  String.intercalate ", " (cells.map fun c => slotText mark c.2)

theorem aligned_assignments {cells : List (String × Value)} (h : ∀ a ∈ cells, IsPlain a.1) :
    Aligned (String.intercalate "," (cells.map fun a => a.1 ++ "=" ++ slot a.2))
      (cells.filterMap fun a => a.2.parameter?) fun mark => assignmentText mark cells := by
  rw [filterMap_parameter?]
  have hcell : ∀ a ∈ cells, Aligned (a.1 ++ "=" ++ slot a.2) a.2.parameter?.toList
      fun mark => a.1 ++ "=" ++ slotText mark a.2 :=
    fun a ha => (aligned_slot a.2).plain_append ((h a ha).append (by decide))
  exact .intercalate (by decide : IsPlain ",") hcell

theorem aligned_values (cells : List (String × Value)) :
    Aligned (String.intercalate ", " (cells.map fun c => slot c.2))
      (cells.filterMap fun c => c.2.parameter?) fun mark => valuesText mark cells := by
  rw [filterMap_parameter?]
  have hcell : ∀ c ∈ cells, Aligned (slot c.2) c.2.parameter?.toList
      fun mark => slotText mark c.2 := fun c _ => aligned_slot c.2
  exact .intercalate (by decide : IsPlain ", ") hcell

end Tabula.Query
