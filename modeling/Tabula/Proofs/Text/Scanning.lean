/-
# Statements as an engine reads them

A statement is read from left to right.  A quote opens a quoted identifier or a string literal, which
ends at the first quote that is not doubled; the word DEFAULT and a parenthesis open an expression,
which ends at the parenthesis that closes it; all other characters stand for themselves (`tokens`).
What is left of a text without identifiers, literals and expressions is its `skeleton`.

A text with names in it spells them (`Spells`) if it is read as these names, each of them in one
quoted identifier, and other parts that do not depend on them.

* `scan_enclosed`: a quoted text is read as what it encloses.
* `Spells.append`, `Spells.link`, `Spells.intercalate`: texts that are put together spell the names of
  all of them.
* `Spells.identifiers_eq`, `Spells.skeleton_eq`: what is said of a text that spells its names.
-/
import Tabula.Proofs.Text.Parts

namespace Tabula.Text

/-! ## 1. Reading -/

/-- A part of a statement. -/
inductive Token where
  | name (s : String)
  | literal (s : String)
  | expression
  | char (c : Char)
deriving DecidableEq, Repr

/-- A character that opens a quoted text, and closes it. -/
def isQuote (c : Char) : Bool := c == '"' || c == '\''

/-- A place inside an expression: how many parentheses are open, and which quote. -/
structure Place where
  depth : Nat
  quote? : Option Char
deriving DecidableEq, Repr

namespace Place

/-- The beginning of an expression, and its end. -/
def start : Place := ⟨0, none⟩

/-- The place after a character, unless that closes the expression.  A doubled quote closes a quoted
text and opens it again. -/
def next (p : Place) (c : Char) : Option Place :=
  match p.quote? with
  | some q => some (if c = q then { p with quote? := none } else p)
  | none =>
    if isQuote c then some { p with quote? := some c }
    else if c = '(' then some { p with depth := p.depth + 1 }
    else if c = ')' then
      if p.depth = 0 then none else some { p with depth := p.depth - 1 }
    else some p

end Place

/-- The word that an expression follows. -/
def defaultWord : List Char := "DEFAULT ".toList

/-- What is being read.  In plain text it counts how much of the word that an expression follows was
read last; after a quote it is open whether that ends the text or is doubled. -/
inductive Mode where
  | plain (matched : Nat)
  | quoted (quote : Char) (read : List Char)
  | closed (quote : Char) (read : List Char)
  | inExpression (place : Place)

/-- A quoted text, from its characters in reverse. -/
def quotedToken (quote : Char) (read : List Char) : Token :=
  if quote = '"' then .name (String.ofList read.reverse) else .literal (String.ofList read.reverse)

/-- How much of the word was read, after one more character. -/
def matchedAfter (matched : Nat) (c : Char) : Nat :=
  if defaultWord[matched]? = some c then matched + 1 else if c = 'D' then 1 else 0

namespace Mode

/-- Reads a character of plain text. -/
def stepPlain (matched : Nat) (c : Char) : Mode × List Token :=
  if isQuote c then (.quoted c [], [])
  else if c = '(' ∧ matched = defaultWord.length then (.inExpression .start, [])
  else (.plain (matchedAfter matched c), [.char c])

/-- Reads a character. -/
def step : Mode → Char → Mode × List Token
  | plain matched, c => stepPlain matched c
  | quoted q read, c => if c = q then (.closed q read, []) else (.quoted q (c :: read), [])
  | closed q read, c =>
    if c = q then (.quoted q (c :: read), [])
    else ((stepPlain 0 c).1, quotedToken q read :: (stepPlain 0 c).2)
  | inExpression p, c =>
    match p.next c with
    | some p' => (.inExpression p', [])
    | none => (.plain 0, [.expression])

/-- The token that the end of a text ends. -/
def finish : Mode → List Token
  | closed q read => [quotedToken q read]
  | plain _ | quoted _ _ | inExpression _ => []

end Mode

/-- Reads characters. -/
def scan : Mode → List Char → List Token
  | m, [] => m.finish
  | m, c :: cs => (m.step c).2 ++ scan (m.step c).1 cs

/-- The parts of a text. -/
def tokens (text : String) : List Token := scan (.plain 0) text.toList

/-- A quoted identifier. -/
def Token.name? : Token → Option String
  | name s => some s
  | _ => none

/-- A character that stands for itself. -/
def Token.char? : Token → Option Char
  | char c => some c
  | _ => none

/-- The quoted identifiers of a text. -/
def identifiers (text : String) : List String := (tokens text).filterMap Token.name?

/-- A text without quoted identifiers, literals and expressions. -/
def skeleton (text : String) : List Char := (tokens text).filterMap Token.char?

example : identifiers "CREATE TABLE \"a\"\"b\" (\"c d\" TEXT DEFAULT (\"f\"('x)')))" = ["a\"b", "c d"] := by
  decide

/-! ## 2. Quoted texts -/

variable {q c : Char} {cs rest read : List Char} {k : Nat} {s : String}

/-- A text whose first character, if it has one, is of a kind. -/
def Begins (p : Char → Bool) (cs : List Char) : Prop := ∀ c ∈ cs.head?, p c

/-- A character that does not go on with a quoted text. -/
def isCalm (c : Char) : Bool := !isQuote c

theorem Begins.head_ne (h : Begins isCalm rest) (hq : isQuote q) : rest.head? ≠ some q := by
  intro hhead
  have hcalm : isCalm q := h q hhead
  simp [isCalm, hq] at hcalm

/-- A quote that is not doubled ends a text. -/
theorem scan_closed (h : rest.head? ≠ some q) :
    scan (.closed q read) rest = quotedToken q read :: scan (.plain 0) rest := by
  cases rest with
  | nil => rfl
  | cons c rest =>
    have hc : c ≠ q := by simpa using h
    simp [scan, Mode.step, hc]

/-- Up to that, doubled quotes are read as one. -/
theorem scan_quoted : scan (.quoted q read) (doubled q cs ++ q :: rest) =
    scan (.closed q (cs.reverse ++ read)) rest := by
  induction cs generalizing read with
  | nil => simp [scan, Mode.step]
  | cons c cs ih =>
    by_cases hc : c = q
    · subst hc
      simp [doubled_cons_self, scan, Mode.step, ih]
    · simp [doubled_cons_of_ne hc, scan, Mode.step, hc, ih]

/-- **A quoted text is read as what it encloses.** -/
theorem scan_enclosed (hq : isQuote q) (h : Begins isCalm rest) :
    scan (.plain k) ((enclosed q s).toList ++ rest) =
      quotedToken q s.toList.reverse :: scan (.plain 0) rest := by
  rw [toList_enclosed_append]
  have hstep : scan (.plain k) (q :: (doubled q s.toList ++ q :: rest)) =
      scan (.quoted q []) (doubled q s.toList ++ q :: rest) := by
    simp [scan, Mode.step, Mode.stepPlain, hq]
  rw [hstep, scan_quoted, scan_closed (h.head_ne hq), List.append_nil]

/-! ## 3. Plain texts and expressions -/

/-- How much of the word was read after plain text, if that opens nothing. -/
def matchedBy : Nat → List Char → Option Nat
  | k, [] => some k
  | k, c :: cs =>
    if isQuote c ∨ c = '(' ∧ k = defaultWord.length then none
    else matchedBy (matchedAfter k c) cs

/-- Plain text stands for itself. -/
theorem scan_plain {k' : Nat} (h : matchedBy k cs = some k') :
    scan (.plain k) (cs ++ rest) = cs.map .char ++ scan (.plain k') rest := by
  induction cs generalizing k with
  | nil =>
    obtain rfl := Option.some.inj h
    rfl
  | cons c cs ih =>
    unfold matchedBy at h
    split at h
    case isTrue => exact absurd h (by simp)
    case isFalse hopens =>
      obtain ⟨hquote, hparen⟩ := not_or.mp hopens
      simp [scan, Mode.step, Mode.stepPlain, hquote, hparen, ih h]

/-- A text in which nothing is opened. -/
def IsInert (s : String) : Prop := ∀ c ∈ s.toList, ¬isQuote c ∧ c ≠ '('

instance (s : String) : Decidable (IsInert s) := List.decidableBAll _ s.toList

theorem IsInert.append {t : String} (hs : IsInert s) (ht : IsInert t) : IsInert (s ++ t) := by
  intro c hc
  rcases List.mem_append.mp (String.toList_append ▸ hc) with hc | hc
  · exact hs c hc
  · exact ht c hc

/-- Such a text is plain. -/
theorem IsInert.exists_matchedBy (h : IsInert s) : ∃ k, matchedBy 0 s.toList = some k := by
  have hlist : ∀ (cs : List Char) (k : Nat), (∀ c ∈ cs, ¬isQuote c ∧ c ≠ '(') →
      ∃ k', matchedBy k cs = some k' := by
    intro cs
    induction cs with
    | nil => exact fun k _ => ⟨k, rfl⟩
    | cons c cs ih =>
      intro k hcs
      obtain ⟨⟨hquote, hparen⟩, hrest⟩ := List.forall_mem_cons.mp hcs
      obtain ⟨k', hk'⟩ := ih (matchedAfter k c) hrest
      exact ⟨k', by rw [matchedBy, if_neg (by simp [hquote, hparen]), hk']⟩
  exact hlist s.toList 0 h

/-- A number opens nothing and has no letter of the word. -/
theorem matchedBy_number (hs : IsWord standsInNumber s) (hk : k = 0 ∨ k = defaultWord.length) :
    matchedBy k s.toList = some 0 := by
  have hchar : ∀ {c : Char} {k : Nat}, standsInNumber c → k = 0 ∨ k = defaultWord.length →
      ¬(isQuote c ∨ c = '(' ∧ k = defaultWord.length) ∧ matchedAfter k c = 0 := by
    have hall : ∀ k ∈ [0, defaultWord.length], numberChars.all fun c =>
        decide (¬(isQuote c ∨ c = '(' ∧ k = defaultWord.length) ∧ matchedAfter k c = 0) := by decide
    intro c k hc hk
    exact of_decide_eq_true (of_standsInNumber (hall k (by simpa using hk)) hc)
  have hzero : ∀ cs : List Char, (∀ c ∈ cs, standsInNumber c) → matchedBy 0 cs = some 0 := by
    intro cs hcs
    induction cs with
    | nil => rfl
    | cons c cs ih =>
      obtain ⟨hopens, hafter⟩ := hchar (hcs c List.mem_cons_self) (.inl rfl)
      rw [matchedBy, if_neg hopens, hafter]
      exact ih fun d hd => hcs d (List.mem_cons_of_mem _ hd)
  obtain ⟨c, cs, hlist, hc⟩ := hs.exists_cons
  obtain ⟨hopens, hafter⟩ := hchar hc hk
  rw [hlist, matchedBy, if_neg hopens, hafter]
  exact hzero cs fun d hd => hs.forall_mem d (hlist ▸ List.mem_cons_of_mem _ hd)

/-- A character that ends a part of a list. -/
def closes (c : Char) : Bool := c == ',' || c == ')'

/-- It ends the word, too. -/
theorem scan_plain_closes (k : Nat) (h : Begins closes rest) :
    scan (.plain k) rest = scan (.plain 0) rest := by
  cases rest with
  | nil => rfl
  | cons c rest =>
    have hc : c = ',' ∨ c = ')' := by simpa [closes] using h c rfl
    have hafter : matchedAfter k c = 0 ∧ matchedAfter 0 c = 0 := by
      have hword : defaultWord[k]? ≠ some c := by
        intro hget
        have hmem := List.mem_of_getElem? hget
        rcases hc with rfl | rfl <;> exact absurd hmem (by decide)
      constructor
      · rcases hc with rfl | rfl <;> simp [matchedAfter, hword]
      · rcases hc with rfl | rfl <;> decide
    have hopens : ¬isQuote c ∧ c ≠ '(' := by
      rcases hc with rfl | rfl <;> decide
    simp [scan, Mode.step, Mode.stepPlain, hopens, hafter]

/-- A text in which all parentheses and quotes are closed, and no others. -/
def IsWhole (s : String) : Prop := s.toList.foldlM Place.next .start = some .start

instance (s : String) : Decidable (IsWhole s) := inferInstanceAs (Decidable (_ = _))

theorem scan_inExpression {p p' : Place} (h : cs.foldlM Place.next p = some p') :
    scan (.inExpression p) (cs ++ rest) = scan (.inExpression p') rest := by
  induction cs generalizing p with
  | nil =>
    obtain rfl := Option.some.inj h
    rfl
  | cons c cs ih =>
    rw [List.foldlM_cons] at h
    obtain ⟨place, hplace, hrest⟩ := Option.bind_eq_some_iff.mp h
    simp [scan, Mode.step, hplace, ih hrest]

/-- **A whole expression is read as one.** -/
theorem scan_expression (h : IsWhole s) :
    scan (.plain defaultWord.length) ('(' :: (s.toList ++ ')' :: rest)) =
      .expression :: scan (.plain 0) rest := by
  have hopen : scan (.plain defaultWord.length) ('(' :: (s.toList ++ ')' :: rest)) =
      scan (.inExpression .start) (s.toList ++ ')' :: rest) := rfl
  rw [hopen, scan_inExpression h]
  rfl

/-! ## 4. Texts with names in them -/

/-- The part with another name in it. -/
def Token.rename (f : String → String) : Token → Token
  | name s => name (f s)
  | t => t

/-- A text that is made of names is read, whatever these are, as the names in quoted identifiers and
parts that do not depend on them, as long as what follows begins with a character of some kind. -/
def Spells (p : Char → Bool) (text : (String → String) → String) (names : List String) : Prop :=
  ∃ ts : List Token, ts.filterMap Token.name? = names ∧ ∀ f rest, Begins p rest →
    scan (.plain 0) ((text f).toList ++ rest) = ts.map (Token.rename f) ++ scan (.plain 0) rest

variable {p p' : Char → Bool} {text text' : (String → String) → String}
  {names names' : List String} {w : String} {ts : List Token}

theorem begins_word (hp : w.toList.head?.any p) : Begins p (w.toList ++ rest) := by
  intro c hc
  cases hw : w.toList with
  | nil => exact absurd hp (by simp [hw])
  | cons d cs =>
    rw [hw] at hc hp
    obtain rfl := Option.some.inj hc
    exact hp

theorem Spells.mono (h : Spells p text names) (hp : ∀ c, p' c → p c) : Spells p' text names := by
  obtain ⟨ts, hnames, hts⟩ := h
  exact ⟨ts, hnames, fun f rest hrest => hts f rest fun c hc => hp c (hrest c hc)⟩

theorem map_rename_of_names_eq_nil (h : ts.filterMap Token.name? = []) (f : String → String) :
    ts.map (Token.rename f) = ts := by
  refine (List.map_congr_left fun t ht => ?_).trans (List.map_id ts)
  have hname : t.name? = none := List.filterMap_eq_nil_iff.mp h t ht
  cases t with
  | name s => exact absurd hname (by simp [Token.name?])
  | literal | expression | char => rfl

/-- A text without names in it. -/
theorem spells_of_scan {u : String} (ts : List Token) (hnames : ts.filterMap Token.name? = [])
    (hscan : ∀ rest, Begins p rest →
      scan (.plain 0) (u.toList ++ rest) = ts ++ scan (.plain 0) rest) :
    Spells p (fun _ => u) [] := by
  refine ⟨ts, hnames, ?_⟩
  intro f rest hrest
  rw [hscan rest hrest, map_rename_of_names_eq_nil hnames]

theorem names_map_char (cs : List Char) : (cs.map Token.char).filterMap Token.name? = [] := by
  simp [Token.name?, List.filterMap_map, Function.comp_def]

theorem spells_word (h : matchedBy 0 w.toList = some 0) : Spells p (fun _ => w) [] :=
  spells_of_scan _ (names_map_char _) fun _ _ => scan_plain h

/-- A word that may end like the one that an expression follows. -/
theorem spells_last_word (h : IsInert w) : Spells closes (fun _ => w) [] := by
  obtain ⟨k, hk⟩ := h.exists_matchedBy
  refine spells_of_scan _ (names_map_char w.toList) ?_
  intro rest hrest
  rw [scan_plain hk, scan_plain_closes k hrest]

theorem spells_identifier (name : String) :
    Spells isCalm (fun f => identifier (f name)) [name] := by
  refine ⟨[.name name], rfl, ?_⟩
  intro f rest hrest
  simp only [identifier]
  rw [scan_enclosed rfl hrest]
  simp [quotedToken, Token.rename]

theorem Spells.append (h : Spells p text names) (h' : Spells p' text' names')
    (hp : ∀ f rest, Begins p ((text' f).toList ++ rest)) :
    Spells p' (fun f => text f ++ text' f) (names ++ names') := by
  obtain ⟨ts, rfl, hts⟩ := h
  obtain ⟨ts', rfl, hts'⟩ := h'
  refine ⟨ts ++ ts', List.filterMap_append, ?_⟩
  intro f rest hrest
  rw [String.toList_append, List.append_assoc, hts f _ (hp f rest), hts' f rest hrest,
    List.map_append, List.append_assoc]

/-- A word may also stand before a name. -/
theorem Spells.word_append (h : Spells p text names) (hw : matchedBy 0 w.toList = some 0) :
    Spells p (fun f => w ++ text f) names := by
  obtain ⟨ts, rfl, hts⟩ := h
  refine ⟨w.toList.map .char ++ ts, ?_, ?_⟩
  · rw [List.filterMap_append, names_map_char, List.nil_append]
  · intro f rest hrest
    rw [String.toList_append, List.append_assoc, scan_plain hw, hts f rest hrest, List.map_append,
      map_rename_of_names_eq_nil (names_map_char _), List.append_assoc]

/-- Two texts with names in them, and a word between them. -/
theorem Spells.link (h : Spells p text names) (w : String) (h' : Spells p' text' names')
    (hw : matchedBy 0 w.toList = some 0) (hp : w.toList.head?.any p) :
    Spells p' (fun f => text f ++ (w ++ text' f)) (names ++ names') := by
  refine h.append (h'.word_append hw) fun f rest => ?_
  rw [String.toList_append, List.append_assoc]
  exact begins_word hp

theorem Spells.append_word (h : Spells p text names) (w : String) (p' : Char → Bool)
    (hw : matchedBy 0 w.toList = some 0) (hp : w.toList.head?.any p) :
    Spells p' (fun f => text f ++ w) names := by
  have hword : Spells p' (fun _ => w) [] := spells_word hw
  have happend := h.append hword fun f rest => begins_word hp
  rwa [List.append_nil] at happend

/-- A list of texts with names in them. -/
theorem Spells.intercalate {α : Type} {text : α → (String → String) → String}
    {names : α → List String} {xs : List α} (hp : p ',')
    (h : ∀ x ∈ xs, Spells p (text x) (names x)) :
    Spells p (fun f => String.intercalate ", " (xs.map fun x => text x f)) (xs.flatMap names) := by
  induction xs with
  | nil => exact spells_word (by decide)
  | cons x xs ih =>
    obtain ⟨hx, hxs⟩ := List.forall_mem_cons.mp h
    cases xs with
    | nil => simpa using hx
    | cons y ys =>
      have hall := hx.link ", " (ih hxs) (by decide) (by simpa using hp)
      simpa [String.intercalate_cons_cons, String.append_assoc] using hall

theorem spells_identifierList (names : List String) :
    Spells isCalm (fun f => identifierList (names.map f)) names := by
  have hlist := Spells.intercalate (by decide)
    fun name (_ : name ∈ names) => spells_identifier name
  simpa [identifierList, Function.comp_def] using hlist

/-- What follows the word DEFAULT is read as a part of its own. -/
theorem spells_default {sql : String} (ts : List Token) (hnames : ts.filterMap Token.name? = [])
    (hscan : ∀ rest, Begins p rest → scan (.plain defaultWord.length) (sql.toList ++ rest) =
      ts ++ scan (.plain 0) rest) :
    Spells p (fun _ => " DEFAULT " ++ sql) [] := by
  have hword : matchedBy 0 " DEFAULT ".toList = some defaultWord.length := by decide
  refine spells_of_scan (" DEFAULT ".toList.map .char ++ ts) ?_ ?_
  · rw [List.filterMap_append, names_map_char, hnames, List.append_nil]
  · intro rest hrest
    rw [String.toList_append, List.append_assoc, scan_plain hword, hscan rest hrest,
      List.append_assoc]

theorem spells_default_number {sql : String} (h : IsWord standsInNumber sql) :
    Spells p (fun _ => " DEFAULT " ++ sql) [] :=
  spells_default _ (names_map_char _) fun _ _ => scan_plain (matchedBy_number h (.inr rfl))

theorem spells_default_literal (s : String) :
    Spells isCalm (fun _ => " DEFAULT " ++ stringLiteral s) [] := by
  refine spells_default [.literal s] rfl ?_
  intro rest hrest
  rw [stringLiteral, scan_enclosed rfl hrest]
  simp [quotedToken]

theorem spells_default_expression {sql : String} (h : IsWhole sql) :
    Spells p (fun _ => " DEFAULT " ++ ("(" ++ sql ++ ")")) [] := by
  refine spells_default [.expression] rfl ?_
  intro rest _
  have hlist : ("(" ++ sql ++ ")").toList ++ rest = '(' :: (sql.toList ++ ')' :: rest) := by simp
  rw [hlist, scan_expression h]
  rfl

/-! ## 5. What is said of such a text -/

/-- **Its quoted identifiers are the names in it.** -/
theorem Spells.identifiers_eq (h : Spells p text names) (f : String → String) :
    identifiers (text f) = names.map f := by
  obtain ⟨ts, rfl, hts⟩ := h
  have hscan := hts f [] (by simp [Begins])
  simp only [List.append_nil, scan, Mode.finish] at hscan
  rw [identifiers, tokens, hscan, List.filterMap_map, List.map_filterMap]
  congr 1
  funext t
  cases t <;> rfl

/-- **What it is besides does not depend on them**, nor does it depend on what follows. -/
theorem Spells.skeleton_append (h : Spells p text names) :
    ∃ cs, ∀ f (u : String), Begins p u.toList → skeleton (text f ++ u) = cs ++ skeleton u := by
  obtain ⟨ts, rfl, hts⟩ := h
  refine ⟨ts.filterMap Token.char?, fun f u hu => ?_⟩
  have hchar : Token.char? ∘ Token.rename f = Token.char? := by
    funext t
    cases t <;> rfl
  rw [skeleton, tokens, String.toList_append, hts f _ hu, List.filterMap_append,
    List.filterMap_map, hchar, skeleton, tokens]

theorem Spells.skeleton_eq (h : Spells p text names) (f g : String → String) :
    skeleton (text f) = skeleton (text g) := by
  obtain ⟨cs, hcs⟩ := h.skeleton_append
  have hempty : Begins p "".toList := by simp [Begins]
  have hf := hcs f "" hempty
  have hg := hcs g "" hempty
  rw [String.append_empty] at hf hg
  exact hf.trans hg.symm

/-- A text that opens nothing stands for itself. -/
theorem skeleton_eq_self (h : IsInert s) : skeleton s = s.toList := by
  obtain ⟨k, hk⟩ := h.exists_matchedBy
  have hscan : scan (.plain 0) (s.toList ++ []) = _ := scan_plain hk
  rw [List.append_nil] at hscan
  rw [skeleton, tokens, hscan]
  simp [scan, Mode.finish, List.filterMap_map, Token.char?, Function.comp_def]

end Tabula.Text
