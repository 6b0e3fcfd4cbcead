/-
# Reading a condition

How an engine reads the text of a condition.  Blanks and parentheses cut it into tokens, and the
tokens are read by the grammar of SQL: AND binds tighter than OR, both group to the left, and
parentheses enclose a condition (`Reads`).

The grammar gives a text no more than one reading (`Reads.unique`).  This is shown with a reader
that goes through the tokens once and keeps a stack of what is open: it finds the formula of every
derivation (`read?_of_reads`).
-/
import Mathlib.Order.Lattice
import Tabula.Proofs.Query.OrderText

namespace Tabula.Query

open Tabula.Text

/-! ## 1. Tokens -/

/-- What the text of a condition is made of. -/
inductive Token where
  | left
  | right
  | connective (c : Connective)
  | word (w : String)
deriving DecidableEq

/-- The connective that a word names, in upper or lower case. -/
def Connective.ofWord? (word : List Char) : Option Connective :=
  let upper := word.map Char.toUpper
  if upper = Connective.and.text.toList then some .and
  else if upper = Connective.or.text.toList then some .or
  else none

/-- Words end at blanks and parentheses. -/
def endsToken (c : Char) : Bool := isBlank c || c == '(' || c == ')'

/-- The token of a word. -/
def Token.ofWord (w : List Char) : Token :=
  match Connective.ofWord? w with
  | some c => .connective c
  | none => .word (String.ofList w)

/-- The token between two separators, if there is a word. -/
def wordTokens (w : List Char) : List Token := if w = [] then [] else [Token.ofWord w]

/-- The token of a separator, which a blank has not. -/
def separatorTokens (c : Char) : List Token :=
  if c = '(' then [.left] else if c = ')' then [.right] else []

/-- The tokens of a text. -/
def tokens (cs : List Char) : List Token :=
  let ws := Words.ofChars endsToken cs
  wordTokens ws.first ++ ws.rest.flatMap fun p => separatorTokens p.1 ++ wordTokens p.2

/-- **A separator stands between what is before and what is after it.** -/
theorem tokens_append_cons {c : Char} (hc : endsToken c = true) (cs ds : List Char) :
    tokens (cs ++ c :: ds) = tokens cs ++ separatorTokens c ++ tokens ds := by
  simp [tokens, Words.ofChars_append_cons hc]

theorem tokens_cons {c : Char} (hc : endsToken c = true) (cs : List Char) :
    tokens (c :: cs) = separatorTokens c ++ tokens cs :=
  tokens_append_cons hc [] cs

theorem tokens_word {w : List Char} (hne : w ≠ []) (h : ∀ c ∈ w, endsToken c = false) :
    tokens w = [Token.ofWord w] := by
  simp [tokens, Words.ofChars_of_forall h, wordTokens, hne]

/-- A word before a blank is a token. -/
theorem tokens_word_blank {w : List Char} (hne : w ≠ []) (h : ∀ c ∈ w, endsToken c = false)
    (cs : List Char) : tokens (w ++ ' ' :: cs) = Token.ofWord w :: tokens cs := by
  rw [tokens_append_cons (by decide), tokens_word hne h]
  rfl

/-! ## 2. Formulas -/

/-- A comparison as it is read: a column and an operator, whose value is a placeholder. -/
structure Test where
  column : String
  operator : Operator
deriving DecidableEq

/-- What a condition says: tests, joined by AND and OR. -/
inductive Formula where
  | test (t : Test)
  | and (f g : Formula)
  | or (f g : Formula)
deriving DecidableEq

namespace Formula

/-- The tests of a formula, from left to right. -/
def tests : Formula → List Test
  | test t => [t]
  | and f g => f.tests ++ g.tests
  | or f g => f.tests ++ g.tests

/-- What a formula comes to when its tests, counted from `place` on, come to the truth values `v`.
Truth values may be any lattice: two of them, or three where a comparison with NULL is unknown. -/
def value {τ : Type} [Lattice τ] (v : Nat → τ) (place : Nat) : Formula → τ
  | test _ => v place
  | and f g => f.value v place ⊓ g.value v (place + f.tests.length)
  | or f g => f.value v place ⊔ g.value v (place + f.tests.length)

end Formula

/-! ## 3. The grammar -/

/-- The words that write an operator, with the placeholder of its value. -/
def Operator.words : Operator → List String
  | relation r => [r.text, "?"]
  | isNull => ["IS", "NULL"]
  | isNotNull => ["IS", "NOT", "NULL"]

/-- The tokens of a comparison. -/
def Test.tokens (t : Test) : List Token := .word t.column :: t.operator.words.map .word

/-- How tightly a part of a condition is bound. -/
inductive Binding where
  | primary
  | conjunction
  | disjunction

/-- The readings of tokens, as parts of a condition. -/
inductive Reads : Binding → List Token → Formula → Prop
  | test (t : Test) : Reads .primary t.tokens (.test t)
  | group {ts : List Token} {f : Formula} (h : Reads .disjunction ts f) :
      Reads .primary (.left :: ts ++ [.right]) f
  | primary {ts : List Token} {f : Formula} (h : Reads .primary ts f) : Reads .conjunction ts f
  | and {ts us : List Token} {f g : Formula} (hf : Reads .conjunction ts f)
      (hg : Reads .primary us g) : Reads .conjunction (ts ++ .connective .and :: us) (.and f g)
  | conjunction {ts : List Token} {f : Formula} (h : Reads .conjunction ts f) :
      Reads .disjunction ts f
  | or {ts us : List Token} {f g : Formula} (hf : Reads .disjunction ts f)
      (hg : Reads .conjunction us g) : Reads .disjunction (ts ++ .connective .or :: us) (.or f g)

/-! ## 4. A reader -/

/-- Joins a formula to what there is before it. -/
def joinTo (op : Formula → Formula → Formula) : Option Formula → Formula → Formula
  | none, g => g
  | some f, g => op f g

/-- What is open at one depth of parentheses: what OR will join, and what AND joins since then.
The last operand is still to come, or is there. -/
inductive Frame where
  | waiting (disjunct conjunct : Option Formula)
  | complete (disjunct : Option Formula) (conjunct : Formula)

namespace Frame

/-- Takes an operand. -/
def add (g : Formula) : Frame → Option Frame
  | waiting d c => some (complete d (joinTo .and c g))
  | complete _ _ => none

/-- Takes a connective. -/
def connect : Connective → Frame → Option Frame
  | .and, complete d c => some (waiting d (some c))
  | .or, complete d c => some (waiting (some (joinTo .or d c)) none)
  | _, waiting _ _ => none

/-- All that was joined. -/
def close : Frame → Option Formula
  | waiting _ _ => none
  | complete d c => some (joinTo .or d c)

end Frame

/-- The comparison that some words write, if it is complete. -/
def Test.ofWords? : List String → Option Test
  | [] => none
  | column :: words => (Operator.all.find? fun o => o.words = words).map (⟨column, ·⟩)

/-- The state of a reader: the words of a comparison that is not complete, what is open at the
present depth, and around it. -/
structure Reader where
  words : List String
  top : Frame
  outer : List Frame

namespace Reader

/-- Nothing was read yet. -/
def start : Reader := ⟨[], .waiting none none, []⟩

/-- Reads one token. -/
def step : Reader → Token → Option Reader
  | ⟨words, top, outer⟩, .word w =>
    match Test.ofWords? (words ++ [w]) with
    | some t => (top.add (.test t)).map (⟨[], ·, outer⟩)
    | none => some ⟨words ++ [w], top, outer⟩
  | ⟨[], top, outer⟩, .connective c => (top.connect c).map (⟨[], ·, outer⟩)
  | ⟨[], top, outer⟩, .left => some ⟨[], .waiting none none, top :: outer⟩
  | ⟨[], top, frame :: outer⟩, .right =>
    top.close.bind fun g => (frame.add g).map (⟨[], ·, outer⟩)
  | _, _ => none

/-- Reads tokens in order. -/
def run (r : Reader) (ts : List Token) : Option Reader := ts.foldlM step r

theorem run_cons (r : Reader) (t : Token) (ts : List Token) :
    r.run (t :: ts) = (r.step t).bind (·.run ts) := by
  simp [run, List.foldlM_cons]

theorem run_append (r : Reader) (ts us : List Token) :
    r.run (ts ++ us) = (r.run ts).bind (·.run us) := by
  simp [run, List.foldlM_append]

/-- The formula that was read. -/
def formula? : Reader → Option Formula
  | ⟨[], top, []⟩ => top.close
  | _ => none

end Reader

/-- Reads a condition. -/
def read? (ts : List Token) : Option Formula := (Reader.start.run ts).bind Reader.formula?

/-- A comparison is complete when its last word is there, and not before. -/
theorem run_test (t : Test) (d c : Option Formula) (outer : List Frame) :
    Reader.run ⟨[], .waiting d c, outer⟩ t.tokens =
      some ⟨[], .complete d (joinTo .and c (.test t)), outer⟩ := by
  obtain ⟨column, operator⟩ := t
  cases operator with
  | relation r => cases r <;> rfl
  | isNull => rfl
  | isNotNull => rfl

/-- What the reader does with a part of a condition: at each level of binding the operand that it
waits for is the part that was read. -/
def Runs : Binding → List Token → Formula → Prop
  | .primary, ts, f => ∀ d c outer, Reader.run ⟨[], .waiting d c, outer⟩ ts =
      some ⟨[], .complete d (joinTo .and c f), outer⟩
  | .conjunction, ts, f => ∀ d outer, Reader.run ⟨[], .waiting d none, outer⟩ ts =
      some ⟨[], .complete d f, outer⟩
  | .disjunction, ts, f => ∀ outer, ∃ d c, Reader.run ⟨[], .waiting none none, outer⟩ ts =
      some ⟨[], .complete d c, outer⟩ ∧ joinTo .or d c = f

/-- **The reader follows the grammar.** -/
theorem runs_of_reads {b : Binding} {ts : List Token} {f : Formula} (h : Reads b ts f) :
    Runs b ts f := by
  induction h with
  | test t => exact run_test t
  | group _ ih =>
    intro d c outer
    obtain ⟨d', c', hrun, rfl⟩ := ih (.waiting d c :: outer)
    rw [List.cons_append, Reader.run_cons]
    simp only [Reader.step, Option.bind_some, Reader.run_append, hrun]
    rfl
  | primary _ ih => exact fun d outer => ih d none outer
  | and _ _ ihf ihg =>
    intro d outer
    rw [Reader.run_append, ihf d outer]
    exact ihg d _ outer
  | conjunction _ ih => exact fun outer => ⟨none, _, ih none outer, rfl⟩
  | or _ _ ihf ihg =>
    intro outer
    obtain ⟨d, c, hrun, rfl⟩ := ihf outer
    refine ⟨some (joinTo .or d c), _, ?_, rfl⟩
    rw [Reader.run_append, hrun]
    exact ihg _ outer

theorem read?_of_reads {ts : List Token} {f : Formula} (h : Reads .disjunction ts f) :
    read? ts = some f := by
  obtain ⟨d, c, hrun, rfl⟩ := runs_of_reads h []
  simp only [read?, Reader.start, hrun]
  rfl

/-- **A text has one reading at most.** -/
theorem Reads.unique {ts : List Token} {f g : Formula} (hf : Reads .disjunction ts f)
    (hg : Reads .disjunction ts g) : f = g :=
  Option.some.inj ((read?_of_reads hf).symm.trans (read?_of_reads hg))

/-- AND binds tighter than OR. -/
example : read? (tokens "t.a = ? OR t.b IS NULL AND t.c < ?".toList) =
    some (.or (.test ⟨"t.a", .relation .eq⟩)
      (.and (.test ⟨"t.b", .isNull⟩) (.test ⟨"t.c", .relation .lt⟩))) := by
  decide +kernel

end Tabula.Query
