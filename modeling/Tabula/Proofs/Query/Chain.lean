/-
# What a condition says

The text of a condition wraps all that came before in parentheses, and leaves the bounds of a range
without.  Read by the grammar of SQL it is the chain that its calls made: the criteria that were
kept, in the order of the calls, each joined to everything before it by the connective that the
nodes record for it (`reads_ofCalls`).

The bounds of a range need no parentheses of their own: AND binds tighter than OR, and after AND it
does not matter how three parts are grouped (`value_conjoin`).
-/
import Tabula.Proofs.Query.Criteria
import Tabula.Proofs.Query.Reading

namespace Tabula.Query

open Tabula.Text

variable {τ : Type} [Lattice τ]

/-! ## 1. Chains of criteria -/

namespace Criterion

/-- The tests of a criterion. -/
def tests (c : Criterion) : List Test := c.comparisons.map fun x => ⟨x.column.text, x.operator⟩

/-- What a criterion comes to, its comparisons counted from `place` on. -/
def value (v : Nat → τ) (place : Nat) : Criterion → τ
  | single _ => v place
  | range _ _ => v place ⊓ v (place + 1)

end Criterion

/-- Joins two truth values. -/
def Connective.apply (conn : Connective) (a b : τ) : τ :=
  match conn with
  | .and => a ⊓ b
  | .or => a ⊔ b

/-- The left fold of a chain: each criterion is joined to everything before it, which comes to
`acc`. -/
def chainValue (v : Nat → τ) (place : Nat) (acc : τ) : List (Connective × Criterion) → τ
  | [] => acc
  | (conn, c) :: links =>
    chainValue v (place + c.comparisons.length) (conn.apply acc (c.value v place)) links

/-- The nodes of a link: all before it is grouped, then come its connective and its comparisons. -/
def linkNodes (l : Connective × Criterion) : List Node :=
  [.group, .connective l.1] ++ l.2.nodes

theorem chainValue_append (v : Nat → τ) (place : Nat) (acc : τ)
    (links : List (Connective × Criterion)) (conn : Connective) (c : Criterion) :
    chainValue v place acc (links ++ [(conn, c)]) =
      conn.apply (chainValue v place acc links)
        (c.value v (place + (links.flatMap (·.2.comparisons)).length)) := by
  induction links generalizing place acc with
  | nil => rfl
  | cons l links ih =>
    rw [List.cons_append, chainValue, ih, chainValue, List.flatMap_cons, List.length_append,
      Nat.add_assoc]

namespace Condition

/-- The first criterion. -/
def head : Condition → Criterion
  | first c => c
  | joined before _ _ => before.head

/-- The further criteria, each with its connective. -/
def links : Condition → List (Connective × Criterion)
  | first _ => []
  | joined before conn c => before.links ++ [(conn, c)]

theorem criteria_eq (c : Condition) : c.criteria = c.head :: c.links.map (·.2) := by
  induction c with
  | first c => rfl
  | joined before conn c ih => simp [criteria, head, links, ih]

theorem nodes_eq (c : Condition) : c.nodes = c.head.nodes ++ c.links.flatMap linkNodes := by
  induction c with
  | first c => simp [nodes, head, links]
  | joined before conn c ih => simp [nodes, head, links, ih, linkNodes]

end Condition

/-! ## 2. The formula of a condition -/

namespace Comparison

/-- A comparison as it is read. -/
def formula (x : Comparison) : Formula := .test ⟨x.column.text, x.operator⟩

end Comparison

namespace Criterion

/-- The formula of a criterion. -/
def formula : Criterion → Formula
  | single x => x.formula
  | range low high => .and low.formula high.formula

/-- The formula of a criterion after AND: the bounds of a range are joined one by one. -/
def conjoin (f : Formula) : Criterion → Formula
  | single x => .and f x.formula
  | range low high => .and (.and f low.formula) high.formula

theorem tests_formula (c : Criterion) : c.formula.tests = c.tests := by cases c <;> rfl

theorem tests_conjoin (f : Formula) (c : Criterion) : (c.conjoin f).tests = f.tests ++ c.tests := by
  cases c with
  | single x => rfl
  | range low high => simp [conjoin, Formula.tests, Comparison.formula, tests, comparisons]

theorem value_formula (c : Criterion) (v : Nat → τ) (place : Nat) :
    c.formula.value v place = c.value v place := by cases c <;> rfl

/-- **After AND the grouping does not matter.** -/
theorem value_conjoin (f : Formula) (c : Criterion) (v : Nat → τ) (place : Nat) :
    (c.conjoin f).value v place = f.value v place ⊓ c.value v (place + f.tests.length) := by
  cases c with
  | single x => rfl
  | range low high =>
    simp only [conjoin, Formula.value, Formula.tests, Comparison.formula, value,
      List.length_append, List.length_singleton, Nat.add_assoc, inf_assoc]

end Criterion

namespace Condition

/-- The formula of a condition. -/
def formula : Condition → Formula
  | first c => c.formula
  | joined before .and c => c.conjoin before.formula
  | joined before .or c => .or before.formula c.formula

theorem tests_formula (c : Condition) : c.formula.tests = c.criteria.flatMap Criterion.tests := by
  induction c with
  | first c => simpa [formula, criteria] using c.tests_formula
  | joined before conn c ih =>
    cases conn with
    | and => simp [formula, criteria, Criterion.tests_conjoin, ih]
    | or => simp [formula, criteria, Formula.tests, Criterion.tests_formula, ih]

theorem length_tests_formula (c : Condition) : c.formula.tests.length =
    c.head.comparisons.length + (c.links.flatMap (·.2.comparisons)).length := by
  simp [tests_formula, criteria_eq, Criterion.tests, List.length_flatMap, Function.comp_def]

/-- **A formula comes to what its chain comes to.** -/
theorem value_formula (c : Condition) (v : Nat → τ) : c.formula.value v 0 =
    chainValue v c.head.comparisons.length (c.head.value v 0) c.links := by
  induction c with
  | first c => exact c.value_formula v 0
  | joined before conn c ih =>
    rw [links, chainValue_append, head, ← ih, ← length_tests_formula]
    cases conn with
    | and => simp [formula, Criterion.value_conjoin, Connective.apply]
    | or => simp [formula, Formula.value, Criterion.value_formula, Connective.apply]

end Condition

/-! ## 3. The text of a condition -/

/-- A name that stays one word in a condition. -/
def IsWord (name : String) : Prop := ∀ c ∈ name.toList, endsToken c = false

instance (name : String) : Decidable (IsWord name) :=
  List.decidableBAll (fun c => endsToken c = false) name.toList

theorem ColumnRef.Over.isWord_text {c : ColumnRef} (h : c.Over IsWord) : IsWord c.text := by
  intro x hx
  rw [toList_columnText, List.mem_append, List.mem_cons] at hx
  rcases hx with hx | rfl | hx
  · exact h.1 x hx
  · decide
  · exact h.2 x hx

theorem ofWord_columnText (c : ColumnRef) : Token.ofWord c.text.toList = .word c.text := by
  have hand := upper_columnText_ne (by decide : '.' ∉ Connective.and.text.toList) c
  have hor := upper_columnText_ne (by decide : '.' ∉ Connective.or.text.toList) c
  simp [Token.ofWord, Connective.ofWord?, hand, hor]

theorem toList_comparisonText (x : Comparison) : x.text.toList = x.column.text.toList ++
    ' ' :: (x.operator.text ++ if x.operator.takesValue then " ?" else "").toList := by
  simp [Comparison.text]

theorem tokens_operator (o : Operator) :
    tokens (o.text ++ if o.takesValue then " ?" else "").toList = o.words.map .word := by
  cases o with
  | relation r => cases r <;> decide +kernel
  | isNull => decide +kernel
  | isNotNull => decide +kernel

theorem tokens_comparison {x : Comparison} (h : x.column.Over IsWord) :
    tokens x.text.toList = Test.tokens ⟨x.column.text, x.operator⟩ := by
  have hne : x.column.text.toList ≠ [] := by simp [toList_columnText]
  rw [toList_comparisonText, tokens_word_blank hne h.isWord_text, tokens_operator,
    ofWord_columnText]
  rfl

theorem tokens_connective (conn : Connective) (cs : List Char) :
    tokens (conn.text.toList ++ ' ' :: cs) = .connective conn :: tokens cs := by
  cases conn with
  | and => exact tokens_word_blank (by decide) (by decide : IsWord Connective.and.text) cs
  | or => exact tokens_word_blank (by decide) (by decide : IsWord Connective.or.text) cs

theorem tokens_range {low high : Comparison} :
    tokens (Criterion.range low high).text.toList =
      tokens low.text.toList ++ .connective .and :: tokens high.text.toList := by
  have htext : (Criterion.range low high).text.toList =
      low.text.toList ++ ' ' :: (Connective.and.text.toList ++ ' ' :: high.text.toList) := by
    simp [Criterion.text, Connective.text]
  rw [htext, tokens_append_cons (by decide), tokens_connective]
  simp [separatorTokens]

theorem toList_joinedText (before : Condition) (conn : Connective) (c : Criterion) :
    (Condition.joined before conn c).text.toList = '(' :: (before.text.toList ++
      ')' :: ' ' :: (conn.text.toList ++ ' ' :: c.text.toList)) := by
  simp [Condition.text]

theorem tokens_joined (before : Condition) (conn : Connective) (c : Criterion) :
    tokens (Condition.joined before conn c).text.toList =
      (.left :: tokens before.text.toList ++ [.right]) ++
        .connective conn :: tokens c.text.toList := by
  rw [toList_joinedText, tokens_cons (by decide), tokens_append_cons (by decide),
    tokens_cons (by decide), tokens_connective]
  simp [separatorTokens]

/-! ## 4. Reading the text -/

theorem reads_comparison {x : Comparison} (h : x.column.Over IsWord) :
    Reads .primary (tokens x.text.toList) x.formula := by
  rw [tokens_comparison h]
  exact .test _

theorem reads_criterion {c : Criterion} (h : c.Over IsWord) :
    Reads .conjunction (tokens c.text.toList) c.formula := by
  cases c with
  | single x => exact .primary (reads_comparison (h x (by simp [Criterion.comparisons])))
  | range low high =>
    rw [tokens_range]
    exact .and (.primary (reads_comparison (h low (by simp [Criterion.comparisons]))))
      (reads_comparison (h high (by simp [Criterion.comparisons])))

theorem reads_conjoin {ts : List Token} {f : Formula} {c : Criterion} (h : c.Over IsWord)
    (hf : Reads .conjunction ts f) :
    Reads .conjunction (ts ++ .connective .and :: tokens c.text.toList) (c.conjoin f) := by
  cases c with
  | single x => exact .and hf (reads_comparison (h x (by simp [Criterion.comparisons])))
  | range low high =>
    rw [tokens_range, ← List.cons_append, ← List.append_assoc]
    exact .and (.and hf (reads_comparison (h low (by simp [Criterion.comparisons]))))
      (reads_comparison (h high (by simp [Criterion.comparisons])))

/-- **The text of a condition is read as its formula.** -/
theorem reads_condition {c : Condition} (h : ∀ x ∈ c.criteria, x.Over IsWord) :
    Reads .disjunction (tokens c.text.toList) c.formula := by
  induction c with
  | first c => exact .conjunction (reads_criterion (h c (by simp [Condition.criteria])))
  | joined before conn c ih =>
    have hbefore := ih fun x hx => h x (by simp [Condition.criteria, hx])
    have hc := h c (by simp [Condition.criteria])
    rw [tokens_joined]
    cases conn with
    | and => exact .conjunction (reads_conjoin hc (.primary (.group hbefore)))
    | or => exact .or (.conjunction (.primary (.group hbefore))) (reads_criterion hc)

/-- Texts whose parentheses are balanced. -/
inductive Balanced : List Char → Prop
  | nil : Balanced []
  | other {c : Char} {cs : List Char} (hleft : c ≠ '(') (hright : c ≠ ')') (h : Balanced cs) :
      Balanced (c :: cs)
  | group {cs ds : List Char} (hcs : Balanced cs) (hds : Balanced ds) :
      Balanced ('(' :: (cs ++ ')' :: ds))

/-- A text without parentheses. -/
def ParenFree (cs : List Char) : Prop := '(' ∉ cs ∧ ')' ∉ cs

instance (cs : List Char) : Decidable (ParenFree cs) := inferInstanceAs (Decidable (_ ∧ _))

theorem ParenFree.append {cs ds : List Char} (hcs : ParenFree cs) (hds : ParenFree ds) :
    ParenFree (cs ++ ds) :=
  ⟨List.not_mem_append hcs.1 hds.1, List.not_mem_append hcs.2 hds.2⟩

theorem ParenFree.blank {cs : List Char} (hcs : ParenFree cs) : ParenFree (' ' :: cs) :=
  append (by decide : ParenFree [' ']) hcs

theorem ParenFree.balanced {cs : List Char} (h : ParenFree cs) : Balanced cs := by
  induction cs with
  | nil => exact .nil
  | cons c cs ih =>
    obtain ⟨hleft, hlefts⟩ := List.ne_and_not_mem_of_not_mem_cons h.1
    obtain ⟨hright, hrights⟩ := List.ne_and_not_mem_of_not_mem_cons h.2
    exact .other hleft.symm hright.symm (ih ⟨hlefts, hrights⟩)

theorem parenFree_word {s : String} (h : IsWord s) : ParenFree s.toList := by
  constructor
  · intro hmem
    exact absurd (h '(' hmem) (by decide)
  · intro hmem
    exact absurd (h ')' hmem) (by decide)

theorem parenFree_comparison {x : Comparison} (h : x.column.Over IsWord) :
    ParenFree x.text.toList := by
  rw [toList_comparisonText]
  refine (parenFree_word h.isWord_text).append (.blank ?_)
  cases x.operator with
  | relation r => cases r <;> decide
  | isNull => decide
  | isNotNull => decide

theorem parenFree_criterion {x : Criterion} (h : x.Over IsWord) : ParenFree x.text.toList := by
  cases x with
  | single x => exact parenFree_comparison (h x (by simp [Criterion.comparisons]))
  | range low high =>
    have hlow := parenFree_comparison (h low (by simp [Criterion.comparisons]))
    have hhigh := parenFree_comparison (h high (by simp [Criterion.comparisons]))
    simp only [Criterion.text, String.toList_append]
    exact (hlow.append (by decide)).append hhigh

theorem parenFree_connective (conn : Connective) : ParenFree conn.text.toList := by
  cases conn <;> decide

theorem balanced_condition {c : Condition} (h : ∀ x ∈ c.criteria, x.Over IsWord) :
    Balanced c.text.toList := by
  induction c with
  | first c => exact (parenFree_criterion (h c (by simp [Condition.criteria]))).balanced
  | joined before conn c ih =>
    have hc := parenFree_criterion (h c (by simp [Condition.criteria]))
    rw [toList_joinedText]
    refine .group (ih fun x hx => h x (by simp [Condition.criteria, hx])) ?_
    exact ((parenFree_connective conn).append hc.blank).blank.balanced

/-! ## 5. Predicates -/

/-- **The text of a predicate says what its calls made.**  Let `u :: us` be what is kept of the
calls.  The text is empty exactly if there is nothing; its parentheses are balanced; it has exactly
one reading, and under every assignment of truth values to its tests, from left to right, this comes
to the left fold of the kept criteria by the connectives that the nodes record. -/
theorem reads_ofCalls {table : String} {calls : List PredicateCall} (htable : IsWord table)
    (hcalls : ∀ call ∈ calls, call.Over IsWord) :
    ((Predicate.ofCalls table calls).selection.text = "" ↔
      calls.filterMap (·.criterion? table) = []) ∧
    Balanced (Predicate.ofCalls table calls).selection.text.toList ∧
    ∀ u us, calls.filterMap (·.criterion? table) = u :: us →
      ∃ conns : List Connective, conns.length = us.length ∧
        (Predicate.ofCalls table calls).nodes = u.nodes ++ (conns.zip us).flatMap linkNodes ∧
        ∃ f : Formula,
          (∀ g, Reads .disjunction
            (tokens (Predicate.ofCalls table calls).selection.text.toList) g ↔ g = f) ∧
          f.tests = (u :: us).flatMap Criterion.tests ∧
          ∀ (τ : Type) [Lattice τ] (v : Nat → τ), f.value v 0 =
            chainValue v u.comparisons.length (u.value v 0) (conns.zip us) := by
  have hcriteria := Predicate.criteria_ofCalls table calls
  have hover := over_ofCalls htable (by decide) hcalls
  generalize Predicate.ofCalls table calls = p at hcriteria hover ⊢
  obtain ⟨table, condition, pending⟩ := p
  rw [← hcriteria]
  cases condition with
  | none =>
    have hnone : ∀ u us, ([] : List Criterion) ≠ u :: us := by simp
    exact ⟨iff_of_true rfl rfl, .nil, fun u us hkept => absurd hkept (hnone u us)⟩
  | some c =>
    have hempty : c.text = "" ↔ c.criteria = [] := by simp [c.text_ne_empty, c.criteria_eq]
    refine ⟨hempty, balanced_condition hover, fun u us hkept => ?_⟩
    obtain ⟨rfl, rfl⟩ := List.cons.inj (c.criteria_eq.symm.trans hkept)
    have hzip : (c.links.map (·.1)).zip (c.links.map (·.2)) = c.links := by
      simp [List.zip_map']
    rw [← c.criteria_eq]
    refine ⟨c.links.map (·.1), by simp, ?_, c.formula, fun g => ⟨fun hg => ?_, ?_⟩,
      c.tests_formula, fun τ _ v => ?_⟩
    · rw [hzip]
      exact c.nodes_eq
    · exact hg.unique (reads_condition hover)
    · rintro rfl
      exact reads_condition hover
    · rw [hzip]
      exact c.value_formula v

/-- Calls with a connective, a value that is left out, and a range. -/
def notesCalls : List PredicateCall :=
  [.compare ⟨"notes", "kind"⟩ .eq (.text "a"), .joinBy .or,
   .compare ⟨"notes", "title"⟩ .like (.text ""),
   .between ⟨"notes", "age"⟩ (.text "18") (some (.below (.text "65")))]

theorem reads_notesCalls :
    ∃ f : Formula,
      (∀ g, Reads .disjunction
        (tokens "(notes.kind = ?) OR notes.age >= ? AND notes.age < ?".toList) g ↔ g = f) ∧
      ∀ (τ : Type) [Lattice τ] (v : Nat → τ), f.value v 0 = v 0 ⊔ v 1 ⊓ v 2 := by
  have hover : ∀ call ∈ notesCalls, call.Over IsWord := by decide
  have hkept : notesCalls.filterMap (·.criterion? "notes") =
      [.single (.relation ⟨"notes", "kind"⟩ .eq "a"),
       .range (.relation ⟨"notes", "age"⟩ .ge "18") (.relation ⟨"notes", "age"⟩ .lt "65")] := by
    decide
  obtain ⟨-, -, hreads⟩ := reads_ofCalls (by decide : IsWord "notes") hover
  obtain ⟨conns, hlength, hnodes, f, hunique, -, hvalue⟩ := hreads _ _ hkept
  obtain ⟨conn, rfl⟩ := List.length_eq_one_iff.mp hlength
  have hconn : conn = .or := by
    cases conn with
    | or => rfl
    | and => exact absurd hnodes (by decide)
  subst hconn
  exact ⟨f, hunique, fun τ _ v => hvalue τ v⟩

end Tabula.Query
