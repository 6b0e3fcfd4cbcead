/-
# Orders that are turned around twice

Turning an order around changes words and nothing else.  To say so, a text is cut into words at
blanks and commas, which can be done in one way only (`Words.cuts_iff`), and two texts are compared
word by word (`Rewrites`): between the same separators, in the same places, a direction becomes the
opposite one, in upper case, and any other word stays.  This determines the text that results.

Turned around twice, a direction is what it was, but for its case, so that an order with directions
in upper case comes back as it was.

* `rewrites_iff`: a change of words that makes no separator determines the text.
* `rewrites_invertOrderText`: what it means to turn an order around, once and twice.
-/
import Tabula.Proofs.Query.TurnedOrders

namespace Tabula

open Tabula.Text

/-! ## 1. The cut of a text -/

namespace Text.Words

variable {sep : Char → Bool} {cs : List Char} {ws ws' : Words} {f g : List Char → List Char}

/-- The characters between the words, in order. -/
def separators (ws : Words) : List Char := ws.rest.map (·.1)

/-- **Words and separators make up a text**: no word contains a separator, and nothing else stands
between words. -/
structure Cuts (sep : Char → Bool) (cs : List Char) (ws : Words) : Prop where
  chars : ws.chars = cs
  words : ∀ w ∈ ws.toList, ∀ c ∈ w, sep c = false
  separators : ∀ c ∈ ws.separators, sep c = true

theorem cuts_ofChars (sep : Char → Bool) (cs : List Char) : Cuts sep cs (ofChars sep cs) := by
  refine ⟨chars_ofChars sep cs, ?_, ?_⟩
  · induction cs with
    | nil => simp [ofChars, toList]
    | cons c cs ih =>
      unfold ofChars
      cases hc : sep c <;> simpa [toList, hc] using ih
  · induction cs with
    | nil => simp [ofChars, separators]
    | cons c cs ih =>
      unfold ofChars
      cases hc : sep c <;> simpa [separators, hc] using ih

/-- **There is one way to cut a text.** -/
theorem cuts_iff : Cuts sep cs ws ↔ ofChars sep cs = ws := by
  constructor
  · rintro ⟨rfl, hwords, hseparators⟩
    obtain ⟨w, rest⟩ := ws
    -- The induction is on the separators; each of them ends the word before it.
    induction rest generalizing w with
    | nil =>
      have hw := hwords w (by simp [toList])
      simp [chars, ofChars_of_forall hw]
    | cons p rest ih =>
      have hchars : chars ⟨w, p :: rest⟩ = w ++ p.1 :: chars ⟨p.2, rest⟩ := by simp [chars]
      have hw := hwords w (by simp [toList])
      have hp := hseparators p.1 (by simp [separators])
      rw [hchars, ofChars_append hw hp, ih p.2]
      · intro v hv
        exact hwords v (List.mem_cons_of_mem _ hv)
      · intro c hc
        exact hseparators c (List.mem_cons_of_mem _ hc)
  · rintro rfl
    exact cuts_ofChars sep cs

@[simp] theorem toList_map : (ws.map f).toList = ws.toList.map f := by
  simp [toList, map, Function.comp_def]

@[simp] theorem separators_map : (ws.map f).separators = ws.separators := by
  simp [separators, map, Function.comp_def]

theorem map_map : (ws.map f).map g = ws.map (g ∘ f) := by
  simp [map, Function.comp_def]

/-- Words and separators are all there is. -/
theorem ext_toList (hwords : ws.toList = ws'.toList)
    (hseparators : ws.separators = ws'.separators) : ws = ws' := by
  obtain ⟨w, rest⟩ := ws
  obtain ⟨w', rest'⟩ := ws'
  obtain ⟨rfl, htail⟩ := List.cons.inj hwords
  have hrest : rest = rest' := by
    rw [← List.zip_unzip rest, ← List.zip_unzip rest']
    simp only [List.unzip_eq_map]
    exact congrArg₂ List.zip hseparators htail
  rw [hrest]

/-- **Words that are changed stay apart**, as long as no word gets a separator. -/
theorem Cuts.map (h : Cuts sep cs ws)
    (hf : ∀ w, (∀ c ∈ w, sep c = false) → ∀ c ∈ f w, sep c = false) :
    Cuts sep (ws.map f).chars (ws.map f) where
  chars := rfl
  words := by
    rw [toList_map]
    intro w hw
    obtain ⟨v, hv, rfl⟩ := List.mem_map.mp hw
    exact hf v (h.words v hv)
  separators := by
    rw [separators_map]
    exact h.separators

end Text.Words

namespace Query

/-! ## 2. Texts compared word by word -/

variable {w w' : List Char} {s t : String} {R : List Char → List Char → Prop}
  {g : List Char → List Char}

/-- **A text is another one with its words changed**: both are cut at the same separators, in the
same places, and one word for another stands between them. -/
def Rewrites (R : List Char → List Char → Prop) (s t : String) : Prop :=
  ∃ ws ws', Words.Cuts endsWord s.toList ws ∧ Words.Cuts endsWord t.toList ws' ∧
    ws'.separators = ws.separators ∧ List.Forall₂ R ws.toList ws'.toList

theorem rewrites_iff (hR : ∀ w w', R w w' ↔ g w = w') (hg : ∀ w, WordChars w → WordChars (g w)) :
    Rewrites R s t ↔ t = String.ofList ((Words.ofChars endsWord s.toList).map g).chars := by
  constructor
  · rintro ⟨ws, ws', hs, ht, hseparators, hwords⟩
    have hmap : ws.map g = ws' := by
      refine Words.ext_toList ?_ ?_
      · rw [Words.toList_map, ← List.forall₂_eq_eq_eq, List.forall₂_map_left_iff]
        exact hwords.imp fun w w' => (hR w w').mp
      · rw [Words.separators_map, hseparators]
    rw [Words.cuts_iff.mp hs, hmap, ht.chars, String.ofList_toList]
  · rintro rfl
    have hcut := Words.cuts_ofChars endsWord s.toList
    refine ⟨_, (Words.ofChars endsWord s.toList).map g, hcut, ?_, Words.separators_map, ?_⟩
    · rw [String.toList_ofList]
      exact hcut.map hg
    · rw [Words.toList_map, List.forall₂_map_right_iff, List.forall₂_same]
      intro w _
      exact (hR w _).mpr rfl

/-! ## 3. Directions -/

theorem ofWord?_eq_some_iff {d : Direction} :
    Direction.ofWord? w = some d ↔ w.map Char.toUpper = d.text.toList := by
  constructor
  · intro h
    simp only [Direction.ofWord?] at h
    split at h
    case isTrue hasc =>
      obtain rfl := Option.some.inj h
      exact hasc
    case isFalse =>
      split at h
      case isTrue hdesc =>
        obtain rfl := Option.some.inj h
        exact hdesc
      case isFalse => cases h
  · intro h
    simp only [Direction.ofWord?, h]
    cases d <;> decide

theorem ofWord?_eq_none_iff :
    Direction.ofWord? w = none ↔ ∀ d : Direction, w.map Char.toUpper ≠ d.text.toList := by
  simp only [Option.eq_none_iff_forall_ne_some, Ne, ofWord?_eq_some_iff]

/-- **One word for another**: a direction, in whatever case, for the one that `f` gives, in upper
case, and any other word for itself. -/
inductive Replaces (f : Direction → Direction) : List Char → List Char → Prop
  | direction {w : List Char} (d : Direction) (spells : w.map Char.toUpper = d.text.toList) :
      Replaces f w (f d).text.toList
  | other {w : List Char} (differs : ∀ d : Direction, w.map Char.toUpper ≠ d.text.toList) :
      Replaces f w w

/-- The word that stands for another one. -/
def replaced (f : Direction → Direction) (w : List Char) : List Char :=
  match Direction.ofWord? w with
  | some d => (f d).text.toList
  | none => w

variable {f : Direction → Direction}

theorem replaces_iff : Replaces f w w' ↔ replaced f w = w' := by
  constructor
  · rintro (⟨d, hd⟩ | hnone)
    · simp [replaced, ofWord?_eq_some_iff.mpr hd]
    · simp [replaced, ofWord?_eq_none_iff.mpr hnone]
  · rintro rfl
    cases hword : Direction.ofWord? w with
    | none =>
      have hother := ofWord?_eq_none_iff.mp hword
      simpa [replaced, hword] using Replaces.other hother
    | some d =>
      have hspells := ofWord?_eq_some_iff.mp hword
      have hself : Replaces f w (f d).text.toList := .direction d hspells
      simpa [replaced, hword] using hself

theorem WordChars.replaced (h : WordChars w) : WordChars (replaced f w) := by
  unfold Query.replaced
  split
  · exact isClean_directionText _
  · exact h

/-- A word is left as it is if it is no direction, or one in upper case. -/
theorem replaces_id_self_iff :
    Replaces id w w ↔ ∀ d : Direction, w.map Char.toUpper = d.text.toList → w = d.text.toList := by
  constructor
  · intro h d hd
    exact (replaces_iff.mp h).symm.trans (replaces_iff.mp (.direction d hd))
  · intro h
    by_cases hword : ∃ d : Direction, w.map Char.toUpper = d.text.toList
    · obtain ⟨d, hd⟩ := hword
      have hself : Replaces id w d.text.toList := .direction d hd
      rwa [← h d hd] at hself
    · exact .other fun d hd => hword ⟨d, hd⟩

/-! ## 4. Orders turned around -/

theorem invertWord_invertWord (w : List Char) : invertWord (invertWord w) = replaced id w := by
  cases hword : Direction.ofWord? w with
  | none =>
    rw [invertWord_eq_self_iff.mpr hword, invertWord_eq_self_iff.mpr hword]
    simp [replaced, hword]
  | some d =>
    rw [ofWord?_opposite hword, invertWord_directionText, Direction.opposite_opposite]
    simp [replaced, hword]

/-- Turned around twice, an order has its directions in upper case. -/
theorem invertOrderText_invertOrderText (s : String) :
    invertOrderText (invertOrderText s) =
      String.ofList ((Words.ofChars endsWord s.toList).map (replaced id)).chars := by
  have hcut := (Words.cuts_ofChars endsWord s.toList).map fun _ => WordChars.invert
  have hword : invertWord ∘ invertWord = replaced id := funext invertWord_invertWord
  rw [invertOrderText, invertOrderText, String.toList_ofList, Words.cuts_iff.mp hcut,
    Words.map_map, hword]

/-- The directions in a text are in upper case. -/
def DirectionsUpper (s : String) : Prop :=
  ∀ w ∈ (Words.ofChars endsWord s.toList).toList, ∀ d : Direction,
    w.map Char.toUpper = d.text.toList → w = d.text.toList

theorem rewrites_id_self_iff : Rewrites (Replaces id) s s ↔ DirectionsUpper s := by
  constructor
  · rintro ⟨ws, ws', hs, ht, -, hwords⟩
    obtain rfl := Words.cuts_iff.mp hs
    obtain rfl := Words.cuts_iff.mp ht
    intro w hw
    exact replaces_id_self_iff.mp (List.forall₂_same.mp hwords w hw)
  · intro h
    have hcut := Words.cuts_ofChars endsWord s.toList
    refine ⟨_, _, hcut, hcut, rfl, List.forall₂_same.mpr ?_⟩
    intro w hw
    exact replaces_id_self_iff.mpr (h w hw)

/-- **To turn an order around is to turn its directions around**, and nothing else: its words
determine the text.  Twice, it is the order with its directions in upper case, which is the order
itself if they are.  And the text of an order with clean names becomes the text of that order with
all directions turned around. -/
theorem rewrites_invertOrderText (s : String) :
    (∀ t, Rewrites (Replaces .opposite) s t ↔ t = invertOrderText s) ∧
      (∀ t, Rewrites (Replaces id) s t ↔ t = invertOrderText (invertOrderText s)) ∧
      (invertOrderText (invertOrderText s) = s ↔ DirectionsUpper s) ∧
      ∀ o : Order, (∀ k ∈ o.keys, k.column.IsClean) → invertOrderText o.text = o.flip.text := by
  have honce : ∀ t, Rewrites (Replaces .opposite) s t ↔ t = invertOrderText s := by
    intro t
    exact rewrites_iff (fun _ _ => replaces_iff) fun _ => WordChars.invert
  have htwice : ∀ t, Rewrites (Replaces id) s t ↔ t = invertOrderText (invertOrderText s) := by
    intro t
    rw [invertOrderText_invertOrderText]
    exact rewrites_iff (fun _ _ => replaces_iff) fun _ => WordChars.replaced
  refine ⟨honce, htwice, ?_, ?_⟩
  · rw [← rewrites_id_self_iff, htwice, eq_comm]
  · intro o h
    exact invertOrderText_text h

/-- Keys with names that contain directions, or are one. -/
def directionNames : Order := ⟨[⟨⟨"asc", "desc"⟩, .asc⟩, ⟨⟨"t", "ASC"⟩, .desc⟩]⟩

theorem rewrites_directionNames :
    (∀ k ∈ directionNames.keys, k.column.IsClean) ∧ DirectionsUpper directionNames.text ∧
      invertOrderText directionNames.text = directionNames.flip.text ∧
      invertOrderText (invertOrderText directionNames.text) = directionNames.text := by
  have hclean : ∀ k ∈ directionNames.keys, k.column.IsClean := by decide
  have hupper : DirectionsUpper directionNames.text := by
    intro w hw d
    revert w
    cases d <;> decide
  obtain ⟨-, -, hself, htext⟩ := rewrites_invertOrderText directionNames.text
  exact ⟨hclean, hupper, htext directionNames hclean, hself.mpr hupper⟩

end Query
end Tabula
