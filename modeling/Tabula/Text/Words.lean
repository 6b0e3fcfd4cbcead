/-
# Words and the characters between them

A text is cut at separator characters into a first word and, for each separator, the word that
follows it.  Words may be empty, so cutting loses nothing: `chars_ofChars` gives the text back.
A change to the words therefore leaves every separator in its place.
-/
namespace Tabula.Text

/-- A text cut at its separators: the first word, then each separator with the word after it. -/
structure Words where
  first : List Char
  rest : List (Char × List Char)
deriving DecidableEq, Repr

namespace Words

/-- Cuts a text at every character that `sep` accepts. -/
def ofChars (sep : Char → Bool) : List Char → Words
  | [] => ⟨[], []⟩
  | c :: cs =>
    let words := ofChars sep cs
    if sep c then ⟨[], (c, words.first) :: words.rest⟩ else ⟨c :: words.first, words.rest⟩

/-- The text, put together again. -/
def chars (w : Words) : List Char :=
  w.first ++ w.rest.flatMap fun p => p.1 :: p.2

/-- Changes each word and keeps each separator. -/
def map (f : List Char → List Char) (w : Words) : Words :=
  ⟨f w.first, w.rest.map fun p => (p.1, f p.2)⟩

/-- **Cutting loses nothing.** -/
theorem chars_ofChars (sep : Char → Bool) (cs : List Char) : (ofChars sep cs).chars = cs := by
  induction cs with
  | nil => rfl
  | cons c cs ih =>
    simp only [chars] at ih
    unfold ofChars
    by_cases h : sep c = true
    · simp [h, chars, ih]
    · simp [h, chars, ih]

end Words
end Tabula.Text
