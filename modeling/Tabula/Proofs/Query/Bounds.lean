/-
# Limits and offsets in statements

A request asks for so many rows, zero meaning all of them, after so many others.  In its statement
these two numbers are the clauses LIMIT and OFFSET, which are read here as an engine reads them
(`Bounds.read?`, `Bounds.cut?`): it counts in 64 bits with sign, takes a negative limit for none,
and knows no OFFSET without a LIMIT before it.

* `sql_eq_fill`: the clauses stand in one place of a statement, at its end or, if the request needs
  a subquery, at the end of that one, and nothing else in it depends on the two numbers.
* `Bounds.read?_text`, `cut?_of_request`: they are read as they were meant.
* `bounds_iff`: an engine can count to both numbers exactly if it can count to the offset, and then
  gives the rows that were asked for; a limit is cut to what it can count to, an offset is not.
* `not_inRange_skippedLogs`: an offset that is too large.
-/
import Tabula.Proofs.Decimal.Numerals
import Tabula.Proofs.Query.JoinedFilter

namespace Tabula.Query

open Tabula.Decimal

/-! ## 1. Bounds as an engine reads them -/

/-- The numbers in a LIMIT and in an OFFSET clause. -/
structure Bounds where
  limit : Option Int
  offset : Option Int
deriving DecidableEq

namespace Bounds

/-- Takes a keyword and an integer off the front of a text. -/
def readClause? (keyword : String) (cs : List Char) : Option (Int × List Char) := do
  let (numeral, cs) ← Numeral.read? (← cs.dropPrefix? keyword.toList)
  return (← numeral.toInt?, cs)

/-- Reads the clauses at the end of a query. -/
def read? (cs : List Char) : Option Bounds :=
  if cs = [] then some ⟨none, none⟩
  else
    (readClause? " LIMIT " cs).bind fun (limit, cs) =>
      if cs = [] then some ⟨some limit, none⟩
      else
        (readClause? " OFFSET " cs).bind fun (offset, cs) =>
          if cs = [] then some ⟨some limit, some offset⟩ else none

/-- Whether an engine can count to a number: in 64 bits with sign. -/
def IsCountable (n : Int) : Prop := Int64.minValue.toInt ≤ n ∧ n ≤ Int64.maxValue.toInt

instance : DecidablePred IsCountable := fun n =>
  inferInstanceAs (Decidable (Int64.minValue.toInt ≤ n ∧ n ≤ Int64.maxValue.toInt))

/-- Whether an engine can count to both numbers. -/
def InRange (b : Bounds) : Prop := (∀ n ∈ b.limit, IsCountable n) ∧ ∀ n ∈ b.offset, IsCountable n

instance : DecidablePred InRange := fun b =>
  inferInstanceAs (Decidable ((∀ n ∈ b.limit, IsCountable n) ∧ ∀ n ∈ b.offset, IsCountable n))

/-- The rows that are left of some: a negative limit is none, and a negative offset skips nothing.
A number that the engine cannot count to is an error. -/
def cut? {α : Type} (b : Bounds) (rows : List α) : Option (List α) :=
  if b.InRange then
    some <|
      let rest := rows.drop (b.offset.getD 0).toNat
      match b.limit with
      | some n => if n < 0 then rest else rest.take n.toNat
      | none => rest
  else none

/-- The numbers of a page. -/
def ofPage (p : Page) : Bounds := ⟨p.limit, p.offset.map fun n => n.toNat⟩

/-! ## 2. The clauses of a page -/

theorem text_ofInt (n : Int) : (Numeral.ofInt n).text = intText n := by
  by_cases hn : n < 0 <;> simp [Numeral.text, Numeral.ofInt, intText, hn]

theorem intText_natCast (n : Nat) : intText n = natText n := by simp [intText]

theorem readClause?_append (keyword : String) (n : Int) {rest : List Char}
    (h : Numeral.Ends rest) :
    readClause? keyword ((keyword ++ intText n).toList ++ rest) = some (n, rest) := by
  have hkeyword : ((keyword ++ intText n).toList ++ rest).dropPrefix? keyword.toList =
      some ((intText n).toList ++ rest) := by
    rw [String.toList_append, List.append_assoc]
    exact List.dropPrefix?_append_of_beq _ (beq_self_eq_true _)
  rw [readClause?, hkeyword, ← text_ofInt]
  simp only [Option.bind_eq_bind, Option.bind_some, Numeral.read?_text _ h, Numeral.toInt?_ofInt,
    Option.pure_def]

/-- A clause with a keyword is no empty text. -/
theorem toList_append_ne_nil {keyword : String} (h : keyword ≠ "") (n : Int) (rest : List Char) :
    (keyword ++ intText n).toList ++ rest ≠ [] := by
  simp [String.toList_append, h]

/-- **The clauses of a page are read as its numbers**, if it has no offset without a limit. -/
theorem read?_text {p : Page} (h : p.offset.isSome → p.limit.isSome) :
    read? p.text.toList = some (ofPage p) := by
  have hlimit : " LIMIT " ≠ "" := by decide
  have hoffset : " OFFSET " ≠ "" := by decide
  obtain ⟨_ | limit, _ | offset⟩ := p
  · rfl
  · simp at h
  · have htext : (Page.mk (some limit) none).text.toList =
        (" LIMIT " ++ intText limit).toList ++ [] := by
      simp [Page.text]
    rw [htext, read?, if_neg (toList_append_ne_nil hlimit _ _),
      readClause?_append _ _ Numeral.ends_nil]
    rfl
  · have htext : (Page.mk (some limit) (some offset)).text.toList =
        (" LIMIT " ++ intText limit).toList ++
          ((" OFFSET " ++ intText offset.toNat).toList ++ []) := by
      simp [Page.text, intText_natCast]
    have hends : Numeral.Ends ((" OFFSET " ++ intText offset.toNat).toList ++ []) := by
      simp only [Numeral.Ends, String.toList_append]
      rintro c ⟨⟩
      decide
    rw [htext, read?, if_neg (toList_append_ne_nil hlimit _ _), readClause?_append _ _ hends,
      Option.bind_some]
    dsimp only
    rw [if_neg (toList_append_ne_nil hoffset _ _), readClause?_append _ _ Numeral.ends_nil]
    rfl

/-! ## 3. The numbers of a request -/

variable {limit offset : UInt64}

theorem isSome_limit_of :
    (Page.of limit offset).offset.isSome → (Page.of limit offset).limit.isSome := by
  by_cases hlimit : 0 < limit <;> by_cases hoffset : 0 < offset <;> simp [Page.of, hlimit, hoffset]

/-- A limit is always cut to what the engine can count to. -/
theorem isCountable_limit_of : ∀ n ∈ (Page.of limit offset).limit, IsCountable n := by
  have hmin : Int64.minValue.toInt ≤ 0 := by decide
  have hmax : (0 : Int) ≤ Int64.maxValue.toInt := by decide
  intro n hn
  simp only [Page.of] at hn
  split at hn
  · obtain rfl := Option.some.inj hn
    constructor <;> omega
  · split at hn
    · obtain rfl := Option.some.inj hn
      decide
    · exact absurd hn (by simp)

theorem isCountable_natCast {n : Nat} : IsCountable n ↔ n < 2 ^ 63 := by
  have hmin : Int64.minValue.toInt ≤ 0 := by decide
  have hmax : Int64.maxValue.toInt = 9223372036854775807 := by decide
  rw [IsCountable, hmax]
  omega

/-- An offset is not. -/
theorem isCountable_offset_of :
    (∀ n ∈ (ofPage (.of limit offset)).offset, IsCountable n) ↔ offset.toNat < 2 ^ 63 := by
  by_cases hoffset : 0 < offset
  · simp [ofPage, Page.of, hoffset, isCountable_natCast]
  · have hzero : offset = 0 := by simpa [UInt64.pos_iff_ne_zero] using hoffset
    simp [ofPage, Page.of, hzero]

theorem inRange_of : (ofPage (.of limit offset)).InRange ↔ offset.toNat < 2 ^ 63 := by
  rw [InRange, isCountable_offset_of]
  exact and_iff_right isCountable_limit_of

/-- What the clauses of a page leave of some rows is the page. -/
theorem cut?_ofPage {α : Type} {p : Page} (h : ∀ n ∈ p.limit, IsCountable n) (rows : List α) :
    (ofPage p).cut? rows = p.cut? rows := by
  have hskipped : ((ofPage p).offset.getD 0).toNat = p.skipped := by
    cases hoffset : p.offset <;> simp [ofPage, Page.skipped, hoffset]
  have hrange : (ofPage p).InRange ↔ p.skipped < 2 ^ 63 := by
    rw [InRange]
    refine (and_iff_right h).trans ?_
    cases hoffset : p.offset <;> simp [ofPage, Page.skipped, hoffset, isCountable_natCast]
  simp only [cut?, Page.cut?, hrange, hskipped]
  rfl

end Bounds

/-- The rows of a list that a request asks for. -/
def Request.part {α : Type} (r : Request) (rows : List α) : List α :=
  if r.limit = 0 then rows.drop r.offset.toNat
  else (rows.drop r.offset.toNat).take r.limit.toNat

/-- **Read as they are written, the clauses of a request leave what it asks for**, if the engine can
count to the offset. -/
theorem cut?_of_request {α : Type} {r : Request} (h : r.offset.toNat < 2 ^ 63) {rows : List α}
    (hrows : rows.length < 2 ^ 63) :
    (Bounds.ofPage (.of r.limit r.offset)).cut? rows = some (r.part rows) := by
  rw [Bounds.cut?_ofPage Bounds.isCountable_limit_of, Page.cut?_of h, Request.part]
  split
  case isTrue hlimit => rw [window, if_pos hlimit]
  case isFalse hlimit => rw [window_eq_take (UInt64.pos_iff_ne_zero.mpr hlimit) hrows]

/-! ## 4. Where they stand -/

/-- The form of a statement: what it says besides the query of its request. -/
inductive Form where
  | select (projections : List Projection) (groupBy : List String) (having : Selection)
  | update (assignments : List (String × Value))
  | delete

namespace Form

/-- What a statement of this form does. -/
def verb : Form → Verb
  | select _ _ _ => .select
  | update _ => .update
  | delete => .delete

/-- The statement of this form over a query. -/
def statement (f : Form) (q : EngineQuery) : Except QueryError Statement :=
  match f with
  | select projections groupBy having => (Select.mk q projections groupBy having).statement
  | update assignments => .ok (Update.mk q assignments).statement
  | delete => .ok q.deleteStatement

/-- What stands in front of the WHERE clause. -/
def lead (f : Form) (q : EngineQuery) : String :=
  match f with
  | select projections groupBy having =>
    "SELECT " ++ (if projections.any Projection.distinct then "DISTINCT " else "") ++
      (Select.mk q projections groupBy having).columnsText ++ " FROM " ++ q.source.text
  | update assignments => "UPDATE " ++ q.table ++ " SET " ++
      String.intercalate "," (assignments.map fun a => a.1 ++ "=" ++ slot a.2)
  | delete => "DELETE FROM " ++ q.table

/-- What stands between the WHERE clause and the clauses of a page. -/
def trail (f : Form) (q : EngineQuery) : String :=
  match f with
  | select _ groupBy having =>
    (if groupBy = [] then "" else " GROUP BY " ++ String.intercalate ", " groupBy) ++
      clause "HAVING" having.text ++ clause "ORDER BY" (q.order.getD "")
  | update _ => ""
  | delete => ""

/-- The clauses of a page at the end of a statement; a mutation has none there. -/
def pageText (f : Form) (q : EngineQuery) : String :=
  if f.verb.isMutation then "" else q.page.text

variable {f : Form} {q : EngineQuery} {st : Statement}

theorem sql_eq (h : f.statement q = .ok st) :
    st.sql = f.lead q ++ clause "WHERE" q.filter.text ++ f.trail q ++ f.pageText q := by
  cases f with
  | select projections groupBy having =>
    change (Select.mk q projections groupBy having).statement = .ok st at h
    unfold Select.statement at h
    split at h
    · cases h
    · cases h
      change (Select.mk q projections groupBy having).text = _
      unfold Select.text lead trail pageText
      simp only [String.append_assoc]
      rfl
  | update assignments =>
    cases h
    simp [Update.statement, lead, trail, pageText, verb, Verb.isMutation]
  | delete =>
    cases h
    simp [EngineQuery.deleteStatement, lead, trail, pageText, verb, Verb.isMutation]

end Form

/-- A text with a gap in it. -/
structure Gapped where
  before : String
  after : String

/-- The text with its gap filled. -/
def Gapped.fill (g : Gapped) (text : String) : String := g.before ++ text ++ g.after

/-- The statement of a request but for the clauses of its page, which are at the end of the
subquery, if there is one, and else at the end of the statement. -/
def Request.gapped (r : Request) (f : Form) : Gapped :=
  if r.needsSubquery then
    ⟨f.lead r.toEngine ++ " WHERE " ++ (rowid r.table).text ++ " IN (" ++
      { r.rowidQuery with page := .all }.text, ")" ++ f.trail r.toEngine⟩
  else ⟨f.lead r.toEngine ++ clause "WHERE" r.selection.text ++ f.trail r.toEngine, ""⟩

theorem clause_of_ne_empty {keyword body : String} (h : body ≠ "") :
    clause keyword body = " " ++ keyword ++ " " ++ body := if_neg h

section Gapped

variable {r : Request} {f : Form} {limit offset : UInt64} {st : Statement}

/-- A mutation without a subquery has no limit and no offset. -/
theorem text_of_plain_mutation (hverb : r.verb.isMutation = true)
    (hplain : r.needsSubquery = false) : (Page.of r.limit r.offset).text = "" := by
  simp only [Request.needsSubquery, hverb, Bool.true_and, Bool.or_eq_false_iff,
    decide_eq_false_iff_not] at hplain
  simp [Page.of, Page.text, hplain.2.1.1, hplain.2.1.2]

/-- Another page changes nothing in front of the WHERE clause, and behind it only the page. -/
theorem lead_withPage (f : Form) (limit offset : UInt64)
    (h : (r.withPage limit offset).needsSubquery = r.needsSubquery) :
    f.lead (r.withPage limit offset).toEngine = f.lead r.toEngine ∧
      f.trail (r.withPage limit offset).toEngine = f.trail r.toEngine := by
  unfold Request.toEngine
  rw [h]
  cases r.needsSubquery <;> cases f <;> exact ⟨rfl, rfl⟩

/-- A subquery ends with its page. -/
theorem RowidQuery.text_eq (q : RowidQuery) :
    q.text = { q with page := .all }.text ++ q.page.text := by
  unfold RowidQuery.text
  rw [String.append_assoc, ← String.append_empty (s := _ ++ q.order)]
  simp only [String.append_assoc]
  rfl

/-- The text of a statement whose request needs a subquery. -/
theorem sql_of_subquery {q : EngineQuery} {sub : RowidQuery} {st : Statement}
    (h : f.statement q = .ok st) (hfilter : q.filter = .rowidIn sub) (hpage : q.page = .all) :
    st.sql = f.lead q ++ " WHERE " ++ (rowid sub.source.base).text ++ " IN (" ++
      { sub with page := .all }.text ++ sub.page.text ++ ")" ++ f.trail q := by
  have hbody : q.filter.text ≠ "" := by
    rw [hfilter]
    intro hempty
    simpa [Filter.text] using congrArg String.length hempty
  have hend : f.pageText q = "" := by
    rw [Form.pageText, hpage]
    split <;> rfl
  rw [Form.sql_eq h, clause_of_ne_empty hbody, hend, hfilter, Filter.text, sub.text_eq]
  simp only [String.append_assoc, String.append_empty]
  rfl

/-- **The limit and the offset of a request stand in one place of its statement**: nothing else in
it depends on them. -/
theorem sql_eq_fill (hverb : f.verb = r.verb)
    (h : (r.withPage limit offset).needsSubquery = r.needsSubquery)
    (hst : f.statement (r.withPage limit offset).toEngine = .ok st) :
    st.sql = (r.gapped f).fill (Page.of limit offset).text := by
  obtain ⟨hlead, htrail⟩ := lead_withPage f limit offset h
  cases hneeds : r.needsSubquery with
  | true =>
    have hengine : (r.withPage limit offset).toEngine.filter =
          .rowidIn { r.rowidQuery with page := .of limit offset } ∧
        (r.withPage limit offset).toEngine.page = .all := by
      rw [Request.toEngine, if_pos (h.trans hneeds), rowidQuery_withPage]
      simp only [Request.rowidQuery, and_self]
    rw [sql_of_subquery hst hengine.1 hengine.2, hlead, htrail, Request.gapped, if_pos hneeds,
      Gapped.fill]
    simp only [String.append_assoc]
    rfl
  | false =>
    rw [hneeds] at h
    have hpage : f.pageText (r.withPage limit offset).toEngine = (Page.of limit offset).text := by
      rw [Form.pageText, hverb]
      split
      case isTrue hmutation =>
        exact (text_of_plain_mutation (r := r.withPage limit offset) hmutation h).symm
      case isFalse =>
        rw [Request.toEngine, h]
        rfl
    have hfilter : (r.withPage limit offset).toEngine.filter = .plain r.selection := by
      rw [Request.toEngine, h]
      rfl
    rw [Form.sql_eq hst, hlead, htrail, hpage, hfilter, Request.gapped,
      if_neg (Bool.eq_false_iff.mp hneeds), Gapped.fill, String.append_empty]
    rfl

/-- **An engine can count to the limit and the offset of a request exactly if it can count to the
offset, and then gives the rows that the request asks for.**  The two stand in one place of the
statement, and are read there as numbers, without an OFFSET if there is no LIMIT. -/
theorem bounds_iff (r : Request) (f : Form) (hverb : f.verb = r.verb) :
    (∀ limit offset st, (r.withPage limit offset).needsSubquery = r.needsSubquery →
      f.statement (r.withPage limit offset).toEngine = .ok st →
      st.sql = (r.gapped f).fill (Page.of limit offset).text) ∧
    ∃ b, Bounds.read? (Page.of r.limit r.offset).text.toList = some b ∧
      (b.offset.isSome → b.limit.isSome) ∧ (∀ n ∈ b.limit, Bounds.IsCountable n) ∧
      (b.InRange ↔ r.offset.toNat < 2 ^ 63) ∧
      (b.InRange → ∀ (α : Type) (rows : List α), rows.length < 2 ^ 63 →
        b.cut? rows = some (r.part rows)) := by
  refine ⟨fun limit offset st h hst => sql_eq_fill hverb h hst, .ofPage (.of r.limit r.offset),
    Bounds.read?_text Bounds.isSome_limit_of, fun h => ?_, Bounds.isCountable_limit_of,
    Bounds.inRange_of, fun h α rows hrows => ?_⟩
  · exact Bounds.isSome_limit_of (by simpa [Bounds.ofPage] using h)
  · exact cut?_of_request (Bounds.inRange_of.mp h) hrows

end Gapped

/-! ## 5. An offset that is too large -/

/-- All lines of a log but a great many. -/
def skippedLogs : Request := { Request.ofTable .select "logs" with offset := 9223372036854775808 }

/-- **An offset that the engine cannot count to is written as it is**: no line is left of a short
log, but the engine gives an error. -/
theorem not_inRange_skippedLogs :
    (Form.select [] [] .none).statement skippedLogs.toEngine =
        .ok ⟨"SELECT * FROM logs ORDER BY logs.rowid ASC LIMIT -1 OFFSET 9223372036854775808", []⟩ ∧
      Bounds.read? " LIMIT -1 OFFSET 9223372036854775808".toList =
        some ⟨some (-1), some 9223372036854775808⟩ ∧
      ¬Bounds.InRange ⟨some (-1), some 9223372036854775808⟩ ∧
      skippedLogs.part ["started"] = [] ∧
      Bounds.cut? ⟨some (-1), some 9223372036854775808⟩ ["started"] = none := by
  refine ⟨?_, ?_, ?_, ?_, ?_⟩
  · have htext : (Select.mk skippedLogs.toEngine [] [] .none).text =
        "SELECT * FROM logs ORDER BY logs.rowid ASC LIMIT -1 OFFSET 9223372036854775808" := by
      decide +kernel
    rw [← htext]
    rfl
  · decide +kernel
  · decide
  · have hlimit : skippedLogs.limit = 0 := rfl
    have hoffset : skippedLogs.offset.toNat = 2 ^ 63 := rfl
    rw [Request.part, if_pos hlimit, hoffset]
    have hlength : ["started"].length ≤ 2 ^ 63 := Nat.one_le_two_pow
    exact List.drop_eq_nil_of_le hlength
  · decide

/-- The third and fourth of some drafts, to be deleted. -/
def middleDrafts : Request := { Request.ofTable .delete "drafts" with limit := 2, offset := 2 }

theorem bounds_middleDrafts :
    Form.delete.statement middleDrafts.toEngine = .ok ⟨
        "DELETE FROM drafts WHERE drafts.rowid IN " ++
          "(SELECT drafts.rowid FROM drafts ORDER BY drafts.rowid ASC LIMIT 2 OFFSET 2)", []⟩ ∧
      ∃ b, Bounds.read? " LIMIT 2 OFFSET 2".toList = some b ∧ b.InRange ∧
        b.cut? ["a", "b", "c", "d", "e"] = some ["c", "d"] := by
  obtain ⟨-, b, hread, -, -, hrange, hcut⟩ := bounds_iff middleDrafts .delete rfl
  have hcounted : b.InRange := hrange.mpr (by decide)
  refine ⟨?_, b, ?_, hcounted, hcut hcounted String _ (by decide)⟩
  · exact congrArg Except.ok (by decide +kernel)
  · rw [← hread]
    decide +kernel

end Tabula.Query
