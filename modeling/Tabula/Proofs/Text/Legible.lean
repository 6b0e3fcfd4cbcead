/-
# Texts that can be told apart

A text that is put together from quoted texts and words is the text of one thing only, whatever
follows it, as long as each part that may be left out begins with a word of its own.  `Legible` says
so of the texts of a kind of things, up to a condition on what follows (`Opens`): a list ends or goes
on, or another clause begins, with one of some given words.

* `Marks.clause_cases`: a clause is not taken for what may follow in its place.
* `legible_flag`: a word that may be left out.
* `Legible.intercalate_append_inj`: a list between parentheses.
-/
import Tabula.Proofs.Text.Parts

namespace Tabula.Text

/-! ## 1. Clauses that may be left out -/

/-- A character of a keyword or number: no blank, comma, parenthesis or quote. -/
def standsInWord (c : Char) : Bool := !(c ∈ [' ', ',', '(', ')', '"', '\''])

theorem standsInWord_of_standsInNumber {c : Char} (h : standsInNumber c) : standsInWord c :=
  of_standsInNumber (by decide) h

/-- What follows a part of a list: the list ends or goes on, or a clause begins with one of some
words. -/
inductive Opens (ws : List String) : List Char → Prop
  | closed {r : List Char} : Opens ws (')' :: r)
  | more {r : List Char} : Opens ws (',' :: r)
  | clause {w : String} {r : List Char} (mem : w ∈ ws) : Opens ws (w.toList ++ r)

/-- A word that begins clauses, and cannot be taken for one of some other words. -/
structure Marks (w : String) (ws : List String) : Prop where
  blank : w.toList.head? = some ' '
  apart : ∀ w' ∈ ws, ¬w.toList <+: w'.toList ∧ ¬w'.toList <+: w.toList

instance (w : String) (ws : List String) : Decidable (Marks w ws) :=
  decidable_of_iff (w.toList.head? = some ' ' ∧
      ∀ w' ∈ ws, ¬w.toList <+: w'.toList ∧ ¬w'.toList <+: w.toList)
    ⟨fun h => ⟨h.1, h.2⟩, fun h => ⟨h.blank, h.apart⟩⟩

/-- A word with what it introduces, or nothing. -/
def clauseText (w : String) : Option String → String
  | some u => w ++ u
  | none => ""

variable {r s : List Char} {w : String} {ws : List String} {o o' : Option String}

/-- A word ends where a clause begins. -/
theorem Opens.not_standsInWord (hr : Opens ws r) (hws : ∀ w ∈ ws, w.toList.head? = some ' ') :
    ∀ c ∈ r.head?, ¬standsInWord c := by
  intro c hc
  have hmark : c = ')' ∨ c = ',' ∨ c = ' ' := by
    cases hr with
    | closed => exact .inl (Option.some.inj hc).symm
    | more => exact .inr (.inl (Option.some.inj hc).symm)
    | @clause w r mem =>
      obtain ⟨cs, hcs⟩ := List.head?_eq_some_iff.mp (hws w mem)
      rw [hcs] at hc
      exact .inr (.inr (Option.some.inj hc).symm)
  rcases hmark with rfl | rfl | rfl <;> decide

theorem Opens.append_clause (hr : Opens ws r) (o : Option String) :
    Opens (w :: ws) ((clauseText w o).toList ++ r) := by
  cases o with
  | none =>
    cases hr with
    | closed => exact .closed
    | more => exact .more
    | @clause w' _ mem => exact .clause (w := w') (List.mem_cons_of_mem _ mem)
  | some u =>
    rw [clauseText, String.toList_append, List.append_assoc]
    exact .clause List.mem_cons_self

/-- Nothing that follows begins with a word which cannot be taken for what may follow. -/
theorem Opens.not_marks (hr : Opens ws (w.toList ++ s)) : ¬Marks w ws := by
  intro hw
  obtain ⟨cs, hcs⟩ : ∃ cs, w.toList = ' ' :: cs := List.head?_eq_some_iff.mp hw.blank
  generalize hlist : w.toList ++ s = l at hr
  cases hr with
  | closed => simp [hcs] at hlist
  | more => simp [hcs] at hlist
  | @clause w' r mem =>
    obtain ⟨hwmark, hmark⟩ := hw.apart w' mem
    rcases List.append_eq_append_iff.mp hlist with ⟨x, hx, -⟩ | ⟨x, hx, -⟩
    · exact hwmark ⟨x, hx.symm⟩
    · exact hmark ⟨x, hx.symm⟩

/-- **Of two clauses with the same text both are left out or none is.** -/
theorem Marks.clause_cases (hw : Marks w ws) (hr : Opens ws r) (hs : Opens ws s)
    (h : (clauseText w o).toList ++ r = (clauseText w o').toList ++ s) :
    o = none ∧ o' = none ∧ r = s ∨
      ∃ u u', o = some u ∧ o' = some u' ∧ u.toList ++ r = u'.toList ++ s := by
  cases o <;> cases o' <;>
    simp only [clauseText, String.toList_append, String.toList_empty, List.nil_append,
      List.append_assoc] at h
  case none.none => exact .inl ⟨rfl, rfl, h⟩
  case none.some u => exact absurd hw (h ▸ hr).not_marks
  case some.none u => exact absurd hw (h ▸ hs).not_marks
  case some.some u u' => exact .inr ⟨u, u', rfl, rfl, List.append_cancel_left h⟩

/-! ## 2. Legible texts -/

/-- The texts of different things with a property differ, and so do texts that go on differently. -/
def Legible {α : Type} (P : α → Prop) (ws : List String) (text : α → String) : Prop :=
  ∀ ⦃a b : α⦄ ⦃r s : List Char⦄, P a → P b → Opens ws r → Opens ws s →
    (text a).toList ++ r = (text b).toList ++ s → a = b ∧ r = s

variable {α : Type} {P : α → Prop} {text : α → String} {xs ys : List α}

/-- What a word introduces that says all by itself. -/
def flag (b : Bool) : Option String := if b then some "" else none

theorem flag_eq_none_iff {b : Bool} : flag b = none ↔ b = false := by cases b <;> decide

theorem flag_eq_some_iff {b : Bool} {u : String} : flag b = some u ↔ b = true ∧ u = "" := by
  cases b <;> simp [flag, eq_comm]

theorem clauseText_flag (w : String) (b : Bool) :
    clauseText w (flag b) = if b then w else "" := by
  cases b <;> simp [flag, clauseText]

/-- **A word that stands for a truth value.** -/
theorem legible_flag (hw : Marks w ws) :
    Legible (fun _ => True) ws fun b => clauseText w (flag b) := by
  intro a b r s _ _ hr hs h
  rcases hw.clause_cases hr hs h with ⟨ha, hb, hrest⟩ | ⟨u, u', ha, hb, hrest⟩
  · exact ⟨(flag_eq_none_iff.mp ha).trans (flag_eq_none_iff.mp hb).symm, hrest⟩
  · obtain ⟨rfl, rfl⟩ := flag_eq_some_iff.mp ha
    obtain ⟨rfl, rfl⟩ := flag_eq_some_iff.mp hb
    exact ⟨rfl, hrest⟩

/-- The characters of a list of texts. -/
theorem toList_intercalate_cons (t : String) (ts : List String) :
    (String.intercalate ", " (t :: ts)).toList =
      t.toList ++ ts.flatMap fun u => ',' :: ' ' :: u.toList := by
  induction ts generalizing t with
  | nil => simp
  | cons u ts ih =>
    rw [String.intercalate_cons_cons, String.toList_append, String.toList_append, ih u]
    simp

/-- What follows an element of a list. -/
theorem opens_items : Opens [] ((xs.flatMap fun x => ',' :: ' ' :: (text x).toList) ++ ')' :: r) := by
  cases xs with
  | nil => exact .closed
  | cons x xs => exact .more

theorem Legible.items_append_inj (ht : Legible P [] text) (hx : ∀ x ∈ xs, P x) (hy : ∀ y ∈ ys, P y)
    (h : (xs.flatMap fun x => ',' :: ' ' :: (text x).toList) ++ ')' :: r =
      (ys.flatMap fun y => ',' :: ' ' :: (text y).toList) ++ ')' :: s) : xs = ys ∧ r = s := by
  induction xs generalizing ys with
  | nil =>
    cases ys with
    | nil => exact ⟨rfl, (List.cons.inj h).2⟩
    | cons y ys => exact absurd (congrArg List.head? h) (by simp)
  | cons x xs ih =>
    cases ys with
    | nil => exact absurd (congrArg List.head? h) (by simp)
    | cons y ys =>
      obtain ⟨hpx, hpxs⟩ := List.forall_mem_cons.mp hx
      obtain ⟨hpy, hpys⟩ := List.forall_mem_cons.mp hy
      simp only [List.flatMap_cons, List.cons_append, List.append_assoc, List.cons.injEq,
        true_and] at h
      obtain ⟨rfl, hrest⟩ := ht hpx hpy opens_items opens_items h
      obtain ⟨rfl, hend⟩ := ih hpxs hpys hrest
      exact ⟨rfl, hend⟩

/-- **A list between parentheses can be told apart if its elements can**, none of which begins with
the closing parenthesis. -/
theorem Legible.intercalate_append_inj (ht : Legible P [] text)
    (hhead : ∀ x, P x → ∃ c cs, (text x).toList = c :: cs ∧ c ≠ ')')
    (hx : ∀ x ∈ xs, P x) (hy : ∀ y ∈ ys, P y)
    (h : (String.intercalate ", " (xs.map text)).toList ++ ')' :: r =
      (String.intercalate ", " (ys.map text)).toList ++ ')' :: s) : xs = ys ∧ r = s := by
  have hnil : ∀ {zs : List α} {z : α} {u v : List Char}, P z →
      ')' :: u ≠ (String.intercalate ", " ((z :: zs).map text)).toList ++ v := by
    intro zs z u v hz heq
    obtain ⟨c, cs, hcs, hc⟩ := hhead z hz
    rw [List.map_cons, toList_intercalate_cons, hcs] at heq
    exact hc (List.cons.inj heq).1.symm
  cases xs with
  | nil =>
    cases ys with
    | nil => exact ⟨rfl, by simpa using h⟩
    | cons y ys => exact absurd (by simpa using h) (hnil (hy y List.mem_cons_self))
  | cons x xs =>
    cases ys with
    | nil => exact absurd (by simpa using h.symm) (hnil (hx x List.mem_cons_self))
    | cons y ys =>
      obtain ⟨hpx, hpxs⟩ := List.forall_mem_cons.mp hx
      obtain ⟨hpy, hpys⟩ := List.forall_mem_cons.mp hy
      simp only [List.map_cons, toList_intercalate_cons, List.flatMap_map, List.append_assoc] at h
      obtain ⟨rfl, hrest⟩ := ht hpx hpy opens_items opens_items h
      obtain ⟨rfl, hend⟩ := ht.items_append_inj hpxs hpys hrest
      exact ⟨rfl, hend⟩

/-! ## 3. Names -/

theorem Opens.head_ne {c : Char} (hr : Opens [] r) (hc : c ≠ ')' ∧ c ≠ ',') :
    r.head? ≠ some c := by
  intro h
  cases hr with
  | closed => exact hc.1 (Option.some.inj h).symm
  | more => exact hc.2 (Option.some.inj h).symm
  | clause mem => exact List.not_mem_nil mem

theorem legible_identifier : Legible (fun _ => True) [] identifier := by
  intro a b r s _ _ hr hs h
  exact enclosed_append_inj (hr.head_ne (by decide)) (hs.head_ne (by decide)) h

/-- **Lists of names between parentheses can be told apart.** -/
theorem identifierList_append_inj {names names' : List String}
    (h : (identifierList names).toList ++ ')' :: r = (identifierList names').toList ++ ')' :: s) :
    names = names' ∧ r = s := by
  have hhead : ∀ name : String, True → ∃ c cs, (identifier name).toList = c :: cs ∧ c ≠ ')' :=
    fun name _ => ⟨'"', doubled '"' name.toList ++ ['"'], by simp [identifier, enclosed], by decide⟩
  exact legible_identifier.intercalate_append_inj hhead (fun _ _ => trivial) (fun _ _ => trivial) h

end Tabula.Text
