/-
# Quoted text

SQL encloses an identifier in double quotes and a string literal in single quotes; the enclosing
quote is written twice where it occurs inside, and every other character stands for itself.
-/
namespace Tabula.Text

/-- The characters of a text with each `quote` written twice. -/
def doubled (quote : Char) (cs : List Char) : List Char :=
  cs.flatMap fun c => if c = quote then [quote, quote] else [c]

/-- The text between two quotes, with each quote inside written twice. -/
def enclosed (quote : Char) (s : String) : String :=
  String.ofList (quote :: doubled quote s.toList ++ [quote])

/-- A name as a quoted identifier. -/
def identifier (name : String) : String := enclosed '"' name

/-- Names as quoted identifiers, separated by commas. -/
def identifierList (names : List String) : String :=
  String.intercalate ", " (names.map identifier)

/-- A text as a string literal. -/
def stringLiteral (text : String) : String := enclosed '\'' text

end Tabula.Text
