/-
# Texts without placeholders

A placeholder is a character of its own, so that a text in which it does not occur stands for
itself.  Everything that a statement is made of is such a text, apart from its conditions and values:
numbers (`isPlain_natText`), pages, orders (`isPlain_resolveOrder`), joins (`isPlain_graphText`) and
lists of columns, as long as the character is in no name.

Names come into a request with its steps; `JoinGraph.Over`, `Projection.Over` and `Order.Over` say
which they are.
-/
import Tabula.Proofs.Query.Criteria
import Tabula.Proofs.Query.JoinTexts
import Tabula.Query.Session

namespace Tabula.Query

open Tabula.Text Tabula.Decimal

/-! ## 1. Plain texts -/

/-- A text in which no placeholder occurs. -/
def IsPlain (s : String) : Prop := '?' ∉ s.toList

instance (s : String) : Decidable (IsPlain s) := inferInstanceAs (Decidable (¬_))

theorem IsPlain.append {s t : String} (hs : IsPlain s) (ht : IsPlain t) : IsPlain (s ++ t) := by
  simpa [IsPlain] using ⟨hs, ht⟩

theorem isPlain_intercalate {sep : String} {ss : List String} (hsep : IsPlain sep)
    (h : ∀ s ∈ ss, IsPlain s) : IsPlain (String.intercalate sep ss) := by
  induction ss with
  | nil => simp [IsPlain]
  | cons s ss ih =>
    obtain ⟨hs, hss⟩ := List.forall_mem_cons.mp h
    cases ss with
    | nil => simpa using hs
    | cons s' ss =>
      rw [String.intercalate_cons_cons]
      exact (hs.append hsep).append (ih hss)

theorem isPlain_join {ss : List String} (h : ∀ s ∈ ss, IsPlain s) : IsPlain (String.join ss) := by
  simpa [IsPlain] using h

/-- A clause is plain when what it introduces is. -/
theorem isPlain_clause {keyword body : String} (hkeyword : IsPlain keyword) (hbody : IsPlain body) :
    IsPlain (clause keyword body) := by
  unfold clause
  split
  · decide
  · exact (((by decide : IsPlain " ").append hkeyword).append (by decide)).append hbody

theorem ColumnRef.Over.isPlain_text {c : ColumnRef} (h : c.Over IsPlain) : IsPlain c.text :=
  (h.1.append (by decide)).append h.2

/-! ## 2. Numbers and pages -/

theorem isPlain_natText (n : Nat) : IsPlain (natText n) := by
  have hdigit : ∀ d : Digit, d.char ≠ '?' := by decide
  simp only [IsPlain, natText, digitsText, String.toList_ofList, List.mem_map]
  rintro ⟨d, -, heq⟩
  exact hdigit d heq

theorem isPlain_intText (n : Int) : IsPlain (intText n) := by
  unfold intText
  split
  · exact (by decide : IsPlain "-").append (isPlain_natText _)
  · exact isPlain_natText _

theorem isPlain_pageText (p : Page) : IsPlain p.text := by
  obtain ⟨limit, offset⟩ := p
  refine IsPlain.append ?_ ?_
  · cases limit with
    | none => exact (by decide : IsPlain "")
    | some n => exact (by decide : IsPlain " LIMIT ").append (isPlain_intText n)
  · cases offset with
    | none => exact (by decide : IsPlain "")
    | some n => exact (by decide : IsPlain " OFFSET ").append (isPlain_natText _)

/-! ## 3. Orders -/

/-- An order whose names have a property. -/
def Order.Over (P : String → Prop) (o : Order) : Prop := ∀ k ∈ o.keys, k.column.Over P

instance {P : String → Prop} [DecidablePred P] (o : Order) : Decidable (o.Over P) :=
  inferInstanceAs (Decidable (∀ _ ∈ _, _))

theorem isPlain_directionText (d : Direction) : IsPlain d.text := by cases d <;> decide

theorem isPlain_keyText {k : SortKey} (h : k.column.Over IsPlain) : IsPlain k.text :=
  (h.isPlain_text.append (by decide)).append (isPlain_directionText _)

theorem isPlain_orderText {o : Order} (h : o.Over IsPlain) : IsPlain o.text := by
  refine isPlain_intercalate (by decide) fun s hs => ?_
  obtain ⟨k, hk, rfl⟩ := List.mem_map.mp hs
  exact isPlain_keyText (h k hk)

/-- What is left without the blanks at both ends occurred before. -/
theorem mem_of_mem_trim {c : Char} {s : String} (h : c ∈ (trim s).toList) : c ∈ s.toList := by
  have hdrop : ∀ cs : List Char, c ∈ dropBlanks cs → c ∈ cs := fun cs hc =>
    (List.dropWhile_sublist _).subset hc
  rw [trim, String.toList_ofList, List.mem_reverse] at h
  exact hdrop _ (List.mem_reverse.mp (hdrop _ h))

theorem isPlain_trim {s : String} (h : IsPlain s) : IsPlain (trim s) :=
  fun hmem => h (mem_of_mem_trim hmem)

/-- A direction that is turned around brings no placeholder in. -/
theorem mem_of_mem_invertWord {w : List Char} (h : '?' ∈ invertWord w) : '?' ∈ w := by
  unfold invertWord at h
  split at h
  case h_1 d _ => exact absurd h (isPlain_directionText d.opposite)
  case h_2 => exact h

theorem isPlain_invertOrderText {s : String} (h : IsPlain s) : IsPlain (invertOrderText s) := by
  have hwords : '?' ∉ (Words.ofChars endsWord s.toList).chars := by
    rw [Words.chars_ofChars]
    exact h
  rw [IsPlain, invertOrderText, String.toList_ofList]
  generalize Words.ofChars endsWord s.toList = ws at hwords
  simp only [Words.chars, Words.map, List.mem_append, List.mem_flatMap, List.mem_cons,
    List.mem_map, not_or, not_exists, not_and] at hwords ⊢
  obtain ⟨hfirst, hrest⟩ := hwords
  refine ⟨fun hmem => hfirst (mem_of_mem_invertWord hmem), ?_⟩
  rintro - ⟨p, hp, rfl⟩
  exact ⟨(hrest p hp).1, fun hmem => (hrest p hp).2 (mem_of_mem_invertWord hmem)⟩

theorem isPlain_resolveOrder {table explicit : String} {last : Bool} (htable : IsPlain table)
    (hexplicit : IsPlain explicit) : IsPlain (resolveOrder table explicit last) := by
  have hrowid : (rowid table).Over IsPlain := ⟨htable, (by decide : IsPlain rowidColumn)⟩
  unfold resolveOrder
  dsimp only
  split
  · exact isPlain_keyText hrowid
  · split
    · exact isPlain_invertOrderText (isPlain_trim hexplicit)
    · exact isPlain_trim hexplicit

/-! ## 4. Joins and columns -/

/-- An edge whose names have a property. -/
def JoinEdge.Over (P : String → Prop) (e : JoinEdge) : Prop := e.partner.Over P ∧ e.anchor.Over P

/-- A graph whose names have a property. -/
structure JoinGraph.Over (P : String → Prop) (g : JoinGraph) : Prop where
  base : P g.base
  edges : ∀ e ∈ g.edges, e.Over P

/-- A projection whose names have a property. -/
def Projection.Over (P : String → Prop) (p : Projection) : Prop := P p.table ∧ ∀ c ∈ p.columns, P c

instance {P : String → Prop} [DecidablePred P] (p : Projection) : Decidable (p.Over P) :=
  inferInstanceAs (Decidable (_ ∧ _))

/-- A join that is added brings its names in. -/
theorem JoinGraph.Over.add {P : String → Prop} {g : JoinGraph} {j : Join} (h : g.Over P)
    (hparent : j.parent.Over P) (hchild : j.child.Over P) : (g.add j).Over P := by
  refine ⟨h.base, fun e he => ?_⟩
  rcases List.mem_append.mp he with he | he
  · exact h.edges e he
  · obtain rfl := List.mem_singleton.mp he
    unfold orient
    split
    · exact ⟨hparent, hchild⟩
    · exact ⟨hchild, hparent⟩

theorem isPlain_kindText (k : JoinKind) : IsPlain k.text := by cases k <;> decide

theorem isPlain_condition {e : JoinEdge} (h : e.Over IsPlain) : IsPlain e.condition :=
  (h.1.isPlain_text.append (by decide)).append h.2.isPlain_text

theorem isPlain_groupText {p : JoinGraph.Group} (h : ∀ e ∈ p.first :: p.others, e.Over IsPlain) :
    IsPlain p.text := by
  have hpartner : IsPlain p.partner := (h p.first List.mem_cons_self).1.1
  refine ((((by decide : IsPlain " ").append (isPlain_kindText _)).append (by decide)).append
    hpartner).append ?_
  split
  · refine (by decide : IsPlain " ON ").append (isPlain_intercalate (by decide) fun s hs => ?_)
    obtain ⟨e, he, rfl⟩ := List.mem_map.mp hs
    exact isPlain_condition (h e he)
  · decide

theorem isPlain_graphText {g : JoinGraph} (h : g.Over IsPlain) : IsPlain g.text := by
  refine h.base.append (isPlain_join fun s hs => ?_)
  obtain ⟨p, hp, rfl⟩ := List.mem_map.mp hs
  exact isPlain_groupText fun e he => h.edges e (JoinGraph.mem_edges_of_mem_groups hp he)

/-- The columns of projections, or all of them. -/
theorem isPlain_columnsText {s : Select} (h : ∀ p ∈ s.projections, p.Over IsPlain) :
    IsPlain s.columnsText := by
  unfold Select.columnsText
  dsimp only
  split
  · decide
  · refine isPlain_intercalate (by decide) fun text htext => ?_
    obtain ⟨p, hp, hcolumn⟩ := List.mem_flatMap.mp htext
    obtain ⟨c, hc, rfl⟩ := List.mem_map.mp hcolumn
    exact ColumnRef.Over.isPlain_text ⟨(h p hp).1, (h p hp).2 c hc⟩

end Tabula.Query
