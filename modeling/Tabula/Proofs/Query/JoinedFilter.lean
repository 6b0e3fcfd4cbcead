/-
# The last rows of a join

A request for the last rows filters by the identifiers that a subquery picks, and its condition goes
into the subquery.  What comes back are rows of the base table; the outer query joins them again.
So a row that is given shares its row of the base table with some joined row that passes the
condition (`exists_matching_of_yields`), but need not pass it itself.

It does for every limit and offset exactly if joined rows that share a row of the base table pass
the condition together (`keeps_of_yields_iff`), as they do where nothing is joined
(`Database.decidedByBase_single`).  A condition on a joined table is another matter
(`not_keeps_lastDraft`).
-/
import Tabula.Proofs.Query.LastRows

namespace Tabula.Query

variable {ρ ν : Type} [LinearOrder ν]

/-! ## 1. Rows that are picked -/

/-- Joined rows that share a row of the base table pass a condition together. -/
def Database.DecidedByBase (db : Database ρ ν) (g : JoinGraph) (s : Selection) : Prop :=
  ∀ a ∈ db.source g, ∀ b ∈ db.source g, db.rowidOf g.base a ≠ db.null →
    db.rowidOf g.base a = db.rowidOf g.base b → db.keeps s a = true → db.keeps s b = true

/-- Rows of a single table share nothing. -/
theorem Database.decidedByBase_single (db : Database ρ ν) (table : String) (s : Selection) :
    db.DecidedByBase (.single table) s := by
  intro a ha b hb _ heq hkeeps
  obtain rfl : a = b := List.inj_on_of_nodup_map (db.rowid_nodup table) ha hb heq
  exact hkeeps

theorem Database.mem_matching {db : Database ρ ν} {g : JoinGraph} {s : Selection} {row : ρ} :
    row ∈ db.matching g s ↔ row ∈ db.source g ∧ db.keeps s row = true := List.mem_filter

/-- The rows of a page are among the rows. -/
theorem Page.sublist_of_cut? {α : Type} {p : Page} {rows out : List α}
    (h : p.cut? rows = some out) : out.Sublist rows := by
  unfold Page.cut? at h
  split at h
  case isTrue =>
    rw [← Option.some.inj h]
    split
    · split
      · exact List.drop_sublist _ _
      · exact (List.take_sublist _ _).trans (List.drop_sublist _ _)
    · exact List.drop_sublist _ _
  case isFalse => simp at h

/-- An identifier that a subquery picks is that of a row that passes its condition. -/
theorem RowidQuery.Picks.exists_matching {db : Database ρ ν} {q : RowidQuery} {ids : List ν} {v : ν}
    (h : q.Picks db ids) (hv : v ∈ ids) :
    ∃ row ∈ db.matching q.source q.selection, db.rowidOf q.source.base row = v := by
  obtain ⟨ordered, page, ⟨keys, -, hperm, -⟩, hcut, rfl⟩ := h
  obtain ⟨row, hrow, rfl⟩ := List.mem_map.mp hv
  exact ⟨row, hperm.mem_iff.mp ((Page.sublist_of_cut? hcut).subset hrow), rfl⟩

/-! ## 2. Requests for the last rows -/

/-- The same request for another page. -/
def Request.withPage (r : Request) (limit offset : UInt64) : Request :=
  { r with limit := limit, offset := offset }

/-- Another page changes nothing else in the subquery. -/
theorem rowidQuery_withPage (r : Request) (limit offset : UInt64) :
    (r.withPage limit offset).rowidQuery =
      ⟨r.source, r.selection, resolveOrder r.table r.order r.last, .of limit offset⟩ := by
  simp only [Request.rowidQuery, Request.withPage, Request.table]

section Last

variable {db : Database ρ ν} {r : Request} {out : List ρ}

/-- The query of a request for the last rows. -/
theorem toEngine_of_last (hlast : r.last = true) (hverb : r.verb = .select) :
    r.toEngine = ⟨r.table, r.source, .rowidIn r.rowidQuery,
      some (resolveOrder r.table r.order false), .all⟩ := by
  simp [Request.toEngine, Request.needsSubquery, hlast, Request.outerOrder, hverb,
    Verb.isMutation]

/-- A request for the last rows gives the joined rows whose identifiers its subquery picks. -/
theorem mem_of_yields_last (hlast : r.last = true) (hverb : r.verb = .select)
    (h : r.toEngine.Yields db out) :
    ∃ ids, r.rowidQuery.Picks db ids ∧
      ∀ row, row ∈ out ↔ row ∈ db.pick r.table ids (db.source r.source) := by
  rw [toEngine_of_last hlast hverb] at h
  obtain ⟨kept, ordered, ⟨ids, hids, rfl⟩, ⟨keys, -, hperm, -⟩, hcut⟩ := h
  obtain rfl : ordered = out := by simpa [Page.cut?_all] using hcut
  exact ⟨ids, hids, fun row => hperm.mem_iff⟩

/-- **A row that is given shares its row of the base table with one that passes the condition.** -/
theorem exists_matching_of_yields (hlast : r.last = true) (hverb : r.verb = .select)
    (h : r.toEngine.Yields db out) {row : ρ} (hrow : row ∈ out) :
    row ∈ db.source r.source ∧ db.rowidOf r.table row ≠ db.null ∧
      ∃ row' ∈ db.matching r.source r.selection,
        db.rowidOf r.table row' = db.rowidOf r.table row := by
  obtain ⟨ids, hids, hout⟩ := mem_of_yields_last hlast hverb h
  obtain ⟨hsource, hpicked⟩ := List.mem_filter.mp ((hout row).mp hrow)
  obtain ⟨hnull, hmem⟩ := of_decide_eq_true hpicked
  exact ⟨hsource, hnull, hids.exists_matching hmem⟩

variable {o : Order} (horder : r.order = o.text)
  (hclean : ∀ k ∈ o.sortKeys r.table, k.column.IsClean)
include horder hclean

/-- Without a limit and an offset, a row is given whenever it shares its row of the base table with
one that passes the condition. -/
theorem exists_yields_all (db : Database ρ ν) (hlast : r.last = true) (hverb : r.verb = .select) :
    ∃ out, (r.withPage 0 0).toEngine.Yields db out ∧
      ∀ row ∈ db.source r.source, db.rowidOf r.table row ≠ db.null →
        (∃ row' ∈ db.matching r.source r.selection,
          db.rowidOf r.table row' = db.rowidOf r.table row) → row ∈ out := by
  have hsorts : ∀ last rows, ∃ out, db.Sorts (resolveOrder r.table r.order last) rows out := by
    intro last rows
    rw [horder]
    exact ⟨_, (Database.sorts_resolveOrder_iff hclean).mpr
      ⟨Database.sorted_perm, Database.isSorted_sorted⟩⟩
  have hpage : ∀ rows : List ρ, (Page.of 0 0).cut? rows = some rows := by
    intro rows
    rw [Page.cut?_of (by decide)]
    rfl
  obtain ⟨ordered, hordered⟩ := hsorts r.last (db.matching r.source r.selection)
  have hpicks : (r.withPage 0 0).rowidQuery.Picks db (ordered.map (db.rowidOf r.table)) := by
    simp only [RowidQuery.Picks, rowidQuery_withPage]
    exact ⟨ordered, ordered, hordered, hpage ordered, rfl⟩
  obtain ⟨out, hout⟩ := hsorts false
    (db.pick r.table (ordered.map (db.rowidOf r.table)) (db.source r.source))
  refine ⟨out, ?_, ?_⟩
  · rw [toEngine_of_last (r := r.withPage 0 0) hlast hverb]
    exact ⟨_, out, ⟨_, hpicks, rfl⟩, hout, Page.cut?_all out⟩
  · rintro row hrow hnull ⟨row', hrow', heq⟩
    obtain ⟨-, -, hpermOut, -⟩ := hout
    obtain ⟨-, -, hperm, -⟩ := hordered
    refine hpermOut.mem_iff.mpr (List.mem_filter.mpr ⟨hrow, decide_eq_true ⟨hnull, ?_⟩⟩)
    exact List.mem_map.mpr ⟨row', hperm.mem_iff.mpr hrow', heq⟩

/-- **The last rows of a join pass the condition, for every page, exactly if joined rows that share
a row of the base table pass it together.** -/
theorem keeps_of_yields_iff (db : Database ρ ν) (hlast : r.last = true) (hverb : r.verb = .select) :
    (∀ limit offset out, (r.withPage limit offset).toEngine.Yields db out →
      ∀ row ∈ out, db.keeps r.selection row = true) ↔
      db.DecidedByBase r.source r.selection := by
  constructor
  · intro hall a ha b hb hnull heq hkeeps
    obtain ⟨out, hyields, hout⟩ := exists_yields_all horder hclean db hlast hverb
    refine hall 0 0 out hyields b (hout b hb (heq ▸ hnull) ⟨a, ?_, heq⟩)
    exact Database.mem_matching.mpr ⟨ha, hkeeps⟩
  · intro hdecided limit offset out hyields row hrow
    obtain ⟨hsource, hnull, row', hrow', heq⟩ :=
      exists_matching_of_yields (r := r.withPage limit offset) hlast hverb hyields hrow
    obtain ⟨hsource', hkeeps⟩ := Database.mem_matching.mp hrow'
    exact hdecided row' hsource' row hsource (heq ▸ hnull) heq hkeeps

end Last

/-! ## 3. A condition on a joined table -/

/-- A post of an author. -/
structure Post where
  rowid : Nat
  author : Nat
  state : String
deriving DecidableEq

/-- An author and a post; either may be missing. -/
structure BlogRow where
  author : Option Nat
  post : Option Post
deriving DecidableEq

/-- One author, by identifier. -/
def blogAuthors : List Nat := [1]

/-- A draft and a published post of that author. -/
def blogPosts : List Post := [⟨1, 1, "draft"⟩, ⟨2, 1, "published"⟩]

/-- Each author with each of the author's posts. -/
def blogRows : List BlogRow :=
  blogAuthors.flatMap fun a => (blogPosts.filter (·.author = a)).map fun p => ⟨some a, some p⟩

/-- The join of authors with their posts. -/
def authorsWithPosts : JoinGraph :=
  (JoinGraph.single "authors").add ⟨.inner, ⟨"authors", "id"⟩, ⟨"posts", "author"⟩⟩

/-- A database of authors and posts, in which the state of a post can be asked for; 0 is NULL. -/
def blog : Database BlogRow Nat where
  source g :=
    if g = .single "authors" then blogAuthors.map fun a => ⟨some a, none⟩
    else if g = .single "posts" then blogPosts.map fun p => ⟨none, some p⟩
    else if g = authorsWithPosts then blogRows
    else []
  holds s row := s.text = "posts.state = ?" ∧ row.post.map (·.state) = s.args.head?
  value row column :=
    if column = "authors.rowid" then row.author.getD 0
    else if column = "posts.rowid" then (row.post.map (·.rowid)).getD 0
    else 0
  null := 0
  rowid_ne_null table := by
    by_cases hauthors : table = "authors"
    · subst hauthors
      decide
    · by_cases hposts : table = "posts"
      · subst hposts
        decide
      · simp [JoinGraph.single, authorsWithPosts, JoinGraph.add, JoinGraph.addEdge, hauthors,
          hposts]
  rowid_nodup table := by
    by_cases hauthors : table = "authors"
    · subst hauthors
      decide
    · by_cases hposts : table = "posts"
      · subst hposts
        decide
      · simp [JoinGraph.single, authorsWithPosts, JoinGraph.add, JoinGraph.addEdge, hauthors,
          hposts]
  length_lt table := by
    split
    · decide
    · split
      · decide
      · split <;> decide
  rowid_of_joined g row hrow hnull := by
    split at hrow
    case isTrue h =>
      subst h
      exact ⟨row, hrow, rfl⟩
    case isFalse =>
      split at hrow
      case isTrue h =>
        subst h
        exact ⟨row, hrow, rfl⟩
      case isFalse =>
        split at hrow
        case isTrue h =>
          subst h
          revert row
          decide
        case isFalse => simp at hrow

/-- The last author with a draft. -/
def lastDraft : Session :=
  (((Session.fresh "authors").find [.compare ⟨"posts", "state"⟩ .eq (.text "draft")]).addJoin
    ⟨.inner, ⟨"authors", "id"⟩, ⟨"posts", "author"⟩⟩ ⟨"posts", [], false⟩).withLast 1

/-- **A row that does not pass the condition**: the last author with a draft is given with the
published post, too. -/
theorem not_keeps_lastDraft :
    lastDraft.selectStatement = .ok lastDraft.select.written ∧
      lastDraft.request.toEngine.Yields blog blogRows ∧
      ∃ row ∈ blogRows, blog.keeps lastDraft.selection row = false := by
  have hdesc : blog.Sorts (resolveOrder "authors" "" true)
      (blog.matching authorsWithPosts lastDraft.selection)
      [⟨some 1, some ⟨1, 1, "draft"⟩⟩] :=
    ⟨[("authors.rowid", .desc)], by decide, by decide, List.pairwise_singleton _ _⟩
  have hpicks : lastDraft.request.rowidQuery.Picks blog [1] :=
    ⟨_, [⟨some 1, some ⟨1, 1, "draft"⟩⟩], hdesc, by decide, by decide⟩
  have hasc : blog.Sorts (resolveOrder "authors" "" false) blogRows blogRows := by
    refine ⟨[("authors.rowid", .asc)], by decide, List.Perm.refl _, ?_⟩
    unfold Database.IsSorted
    decide
  refine ⟨lastDraft.selectStatement_of_having rfl, ?_, by decide⟩
  exact ⟨blogRows, blogRows, ⟨[1], hpicks, by decide⟩, hasc, by decide⟩

/-- The last author. -/
def lastAuthor : Session := (Session.fresh "authors").withLast 1

theorem keeps_lastAuthor :
    (∀ limit offset out, (lastAuthor.request.withPage limit offset).toEngine.Yields blog out →
      ∀ row ∈ out, blog.keeps lastAuthor.request.selection row = true) ∧
    ¬∀ limit offset out, (lastDraft.request.withPage limit offset).toEngine.Yields blog out →
      ∀ row ∈ out, blog.keeps lastDraft.request.selection row = true := by
  constructor
  · exact (keeps_of_yields_iff (o := .empty) rfl (by decide) blog rfl rfl).mpr
      (blog.decidedByBase_single "authors" _)
  · rw [keeps_of_yields_iff (o := .empty) rfl (by decide) blog rfl rfl]
    unfold Database.DecidedByBase
    decide

end Tabula.Query
