/-
# Mutations of selected rows

`set` turns what a session gathered into a mutation.  It hands over tables, condition, limit and
offset, but not the wish for the last rows.  So a mutation addresses the rows that the session would
select, as long as it did not ask for the last ones; else it addresses the first rows instead of the
last ones, and these are the same only if both windows of the identifiers are
(`addresses_eq_rowids_iff`).

Without an order of its own a request is about identifiers in their order.  Joined rows may share an
identifier, so that the rows of a window are not determined, but their identifiers are
(`Database.map_rowidOf_of_sorts`).
-/
import Tabula.Proofs.Query.LastRows

namespace Tabula.Query

open Std

variable {ρ ν : Type} [LinearOrder ν]

/-! ## 1. Identifiers in their order -/

namespace Database

variable {db : Database ρ ν} {table : String} {rows out : List ρ} {last : Bool}

/-- The identifiers of rows, in their order. -/
def identifiers (db : Database ρ ν) (table : String) (rows : List ρ) : List ν :=
  (rows.map (db.rowidOf table)).mergeSort (· ≤ ·)

/-- The identifiers of rows, from the last one if the last rows are asked for. -/
def directed (db : Database ρ ν) (table : String) (last : Bool) (rows : List ρ) : List ν :=
  if last then (db.identifiers table rows).reverse else db.identifiers table rows

/-- The identifiers that rows have from a table. -/
def rowids (db : Database ρ ν) (table : String) (rows : List ρ) : Set ν :=
  {v | v ≠ db.null ∧ ∃ r ∈ rows, db.rowidOf table r = v}

theorem mem_identifiers {v : ν} :
    v ∈ db.identifiers table rows ↔ ∃ r ∈ rows, db.rowidOf table r = v := by
  rw [identifiers, List.mem_mergeSort, List.mem_map]

theorem mem_directed {v : ν} :
    v ∈ db.directed table last rows ↔ ∃ r ∈ rows, db.rowidOf table r = v := by
  unfold directed
  split
  · rw [List.mem_reverse, mem_identifiers]
  · exact mem_identifiers

theorem isLE_compareKeys_single {column : String} {a b : ρ} :
    (db.compareKeys [(column, .asc)] a b).isLE = true ↔ db.value a column ≤ db.value b column := by
  have hcompare : db.compareKeys [(column, .asc)] a b =
      compare (db.value a column) (db.value b column) := by
    simp [compareKeys, compareKey, compareLex, compareOn]
  rw [hcompare, ← Ordering.ne_gt_iff_isLE]
  exact compare_le_iff_le

/-- Rows that are sorted by identifier have their identifiers in order. -/
theorem map_rowidOf_of_isSorted (hp : out.Perm rows)
    (hs : db.IsSorted [((rowid table).text, .asc)] out) :
    out.map (db.rowidOf table) = db.identifiers table rows := by
  have hsorted : (out.map (db.rowidOf table)).Pairwise (· ≤ ·) := by
    rw [List.pairwise_map]
    exact hs.imp isLE_compareKeys_single.mp
  exact ((hp.map _).trans (List.mergeSort_perm _ _).symm).eq_of_pairwise' hsorted
    (List.pairwise_mergeSort' (· ≤ ·) _)

variable (hclean : IsClean table)
include hclean

theorem isClean_rowid : ∀ k ∈ Order.empty.sortKeys table, k.column.IsClean := by
  simp only [Order.sortKeys, Order.empty, if_pos, List.mem_singleton, forall_eq]
  exact ⟨hclean, (by decide : Query.IsClean rowidColumn)⟩

/-- **Without an order, identifiers come in their order**, or the other way round. -/
theorem map_rowidOf_of_sorts (h : db.Sorts (resolveOrder table "" last) rows out) :
    out.map (db.rowidOf table) = db.directed table last rows := by
  obtain ⟨hp, hs⟩ := (sorts_resolveOrder_iff (o := .empty) (isClean_rowid hclean)).mp h
  cases last with
  | false => exact map_rowidOf_of_isSorted hp hs
  | true =>
    rw [isSorted_readKeys_true] at hs
    have hreverse := map_rowidOf_of_isSorted (out.reverse_perm.trans hp) hs
    rw [List.map_reverse, List.reverse_eq_iff] at hreverse
    exact hreverse

/-- Rows can be sorted by identifier. -/
theorem exists_sorts (db : Database ρ ν) (last : Bool) (rows : List ρ) :
    ∃ out, db.Sorts (resolveOrder table "" last) rows out :=
  ⟨_, (sorts_resolveOrder_iff (o := .empty) (isClean_rowid hclean)).mpr
    ⟨sorted_perm, isSorted_sorted⟩⟩

end Database

theorem map_window {α β : Type} (f : α → β) (limit offset : UInt64) (rows : List α) :
    (window limit offset rows).map f = window limit offset (rows.map f) := by
  unfold window
  split
  · rw [List.map_drop]
  · rw [List.map_take, List.map_drop]

/-! ## 2. Requests without an order -/

/-- The window of identifiers that a request is about. -/
def Request.ids (db : Database ρ ν) (r : Request) : List ν :=
  window r.limit r.offset (db.directed r.table r.last (db.matching r.source r.selection))

/-- The rows that a request is about, by identifier. -/
def Request.rowids (db : Database ρ ν) (r : Request) : Set ν :=
  {v | v ≠ db.null ∧ v ∈ r.ids db}

/-- An identifier that a request is about is that of some row. -/
theorem exists_of_mem_ids {db : Database ρ ν} {r : Request} {v : ν} (h : v ∈ r.ids db) :
    ∃ row ∈ db.source r.source, db.rowidOf r.table row = v := by
  obtain ⟨row, hrow, hv⟩ := Database.mem_directed.mp ((window_sublist _ _ _).subset h)
  exact ⟨row, (List.mem_filter.mp hrow).1, hv⟩

theorem mem_pick {db : Database ρ ν} {table : String} {ids : List ν} {rows : List ρ} {v : ν} :
    (∃ row ∈ db.pick table ids rows, db.rowidOf table row = v) ↔
      v ≠ db.null ∧ v ∈ ids ∧ ∃ row ∈ rows, db.rowidOf table row = v := by
  simp only [Database.pick, List.mem_filter, decide_eq_true_eq]
  constructor
  · rintro ⟨row, ⟨hrow, hne, hmem⟩, rfl⟩
    exact ⟨hne, hmem, row, hrow, rfl⟩
  · rintro ⟨hne, hmem, row, hrow, rfl⟩
    exact ⟨row, ⟨hrow, hne, hmem⟩, rfl⟩

/-- **Rows of the base table that are picked have the identifiers that the request is about.** -/
theorem setOf_pick_eq_rowids (db : Database ρ ν) (r : Request) :
    {v | ∃ row ∈ db.pick r.table (r.ids db) (db.source (.single r.table)),
      db.rowidOf r.table row = v} = r.rowids db := by
  ext v
  simp only [Set.mem_ofPred_eq, mem_pick, Request.rowids]
  constructor
  · exact fun h => ⟨h.1, h.2.1⟩
  · rintro ⟨hne, hmem⟩
    -- A joined row has its identifier from some row of the base table.
    obtain ⟨row, hrow, rfl⟩ := exists_of_mem_ids hmem
    obtain ⟨base, hbase, heq⟩ := db.rowid_of_joined r.source row hrow hne
    exact ⟨hne, hmem, base, hbase, heq⟩

/-- A request that needs no subquery is about all matching rows of its table. -/
theorem setOf_matching_eq_rowids (db : Database ρ ν) {r : Request} (hlast : r.last = false)
    (hlimit : r.limit = 0) (hoffset : r.offset = 0) (hsource : r.source = .single r.table) :
    {v | ∃ row ∈ db.matching (.single r.table) r.selection, db.rowidOf r.table row = v} =
      r.rowids db := by
  have hids : ∀ v, v ∈ r.ids db ↔
      ∃ row ∈ db.matching r.source r.selection, db.rowidOf r.table row = v := by
    intro v
    rw [Request.ids, hlimit, hoffset, hlast]
    simpa [window, Database.directed] using Database.mem_identifiers
  ext v
  simp only [Set.mem_ofPred_eq, Request.rowids, hids, ← hsource]
  constructor
  · rintro ⟨row, hrow, rfl⟩
    refine ⟨db.rowid_ne_null r.table row ?_, row, hrow, rfl⟩
    rw [← hsource]
    exact (List.mem_filter.mp hrow).1
  · exact fun h => h.2

section Requests

variable {db : Database ρ ν} {r : Request} (horder : r.order = "") (hclean : IsClean r.table)
  (hoffset : r.offset.toNat < 2 ^ 63)

include horder hclean hoffset

/-- What the subquery of a request picks. -/
theorem picks_rowidQuery_iff {ids : List ν} : r.rowidQuery.Picks db ids ↔ ids = r.ids db := by
  simp only [RowidQuery.Picks, Request.rowidQuery, horder, Page.cut?_of hoffset]
  constructor
  · rintro ⟨ordered, page, hsorts, hpage, rfl⟩
    rw [← Option.some.inj hpage, Request.ids, ← Database.map_rowidOf_of_sorts hclean hsorts]
    exact map_window _ _ _ _
  · rintro rfl
    obtain ⟨ordered, hsorts⟩ := Database.exists_sorts hclean db r.last
      (db.matching r.source r.selection)
    refine ⟨ordered, _, hsorts, rfl, ?_⟩
    rw [Request.ids, ← Database.map_rowidOf_of_sorts hclean hsorts]
    exact (map_window _ _ _ _).symm

theorem exists_picks_rowidQuery (db : Database ρ ν) : r.rowidQuery.Picks db (r.ids db) :=
  (picks_rowidQuery_iff horder hclean hoffset).mpr rfl

/-- **A SELECT gives rows with the identifiers that the request is about.** -/
theorem rowids_of_yields {out : List ρ} (hverb : r.verb.isMutation = false)
    (h : r.toEngine.Yields db out) : db.rowids r.table out = r.rowids db := by
  obtain ⟨kept, ordered, hkept, hsorts, hcut⟩ := h
  unfold Request.toEngine at hkept hsorts hcut
  split at hkept
  case isTrue hneeds =>
    rw [if_pos hneeds] at hsorts hcut
    simp only [hverb, Request.outerOrder, Bool.false_eq_true, if_false] at hkept hsorts hcut
    obtain ⟨ids, hids, rfl⟩ := hkept
    rw [(picks_rowidQuery_iff horder hclean hoffset).mp hids] at hsorts
    obtain ⟨keys, -, hperm, -⟩ := hsorts
    obtain rfl : ordered = out := by simpa [Page.cut?_all] using hcut
    ext v
    have hpick : (∃ row ∈ ordered, db.rowidOf r.table row = v) ↔ v ≠ db.null ∧ v ∈ r.ids db ∧
        ∃ row ∈ db.source r.source, db.rowidOf r.table row = v := by
      simp only [hperm.mem_iff]
      exact mem_pick
    simp only [Database.rowids, Request.rowids, Set.mem_ofPred_eq, hpick]
    exact ⟨fun h => ⟨h.1, h.2.2.1⟩, fun h => ⟨h.1, h.1, h.2, exists_of_mem_ids h.2⟩⟩
  case isFalse hneeds =>
    rw [if_neg hneeds] at hsorts hcut
    have hlast : r.last = false := by
      simp only [Request.needsSubquery, Bool.or_eq_true, not_or] at hneeds
      simpa using hneeds.1
    simp only [hverb, Request.outerOrder, Bool.false_eq_true, if_false, horder] at hsorts
    obtain rfl : kept = db.matching r.source r.selection := hkept
    rw [Page.cut?_of hoffset, Option.some.injEq] at hcut
    have hids : out.map (db.rowidOf r.table) = r.ids db := by
      rw [← hcut, map_window, Database.map_rowidOf_of_sorts hclean hsorts, Request.ids, hlast]
    ext v
    simp only [Database.rowids, Request.rowids, Set.mem_ofPred_eq, ← hids, List.mem_map]

/-- There is something that a SELECT gives. -/
theorem exists_yields (hverb : r.verb.isMutation = false) (db : Database ρ ν) :
    ∃ out, r.toEngine.Yields db out := by
  unfold Request.toEngine
  split
  case isTrue hneeds =>
    obtain ⟨out, hsorts⟩ := Database.exists_sorts hclean db false
      (db.pick r.table (r.ids db) (db.source r.source))
    refine ⟨out, _, out, ⟨_, exists_picks_rowidQuery horder hclean hoffset db, rfl⟩, ?_,
      Page.cut?_all _⟩
    simp only [hverb, Request.outerOrder, horder]
    exact hsorts
  case isFalse hneeds =>
    obtain ⟨out, hsorts⟩ := Database.exists_sorts hclean db false
      (db.matching r.source r.selection)
    refine ⟨_, _, out, rfl, ?_, Page.cut?_of hoffset _⟩
    simp only [hverb, Request.outerOrder, horder]
    exact hsorts

/-- **A mutation addresses the rows that the request is about.** -/
theorem addresses_iff {ids : Set ν} (hverb : r.verb.isMutation = true)
    (hsingle : r.source.isSingle = true → r.source = .single r.table) :
    r.toEngine.Addresses db ids ↔ ids = r.rowids db := by
  unfold Request.toEngine
  split
  case isTrue hneeds =>
    have hset := setOf_pick_eq_rowids db r
    constructor
    · rintro ⟨kept, ⟨picked, hpicked, rfl⟩, rfl⟩
      rw [(picks_rowidQuery_iff horder hclean hoffset).mp hpicked]
      exact hset
    · rintro rfl
      exact ⟨_, ⟨_, exists_picks_rowidQuery horder hclean hoffset db, rfl⟩, hset.symm⟩
  case isFalse hneeds =>
    obtain ⟨hlast, hlimit, hskip, hjoins⟩ : r.last = false ∧ r.limit = 0 ∧ r.offset = 0 ∧
        r.source.isSingle = true := by
      simpa [Request.needsSubquery, hverb, and_assoc] using hneeds
    have hset := setOf_matching_eq_rowids db hlast hlimit hskip (hsingle hjoins)
    constructor
    · rintro ⟨kept, rfl, rfl⟩
      exact hset
    · rintro rfl
      exact ⟨_, rfl, hset.symm⟩

end Requests

/-! ## 3. Sessions -/

/-- The states of a session that gathers rows of a table, without order, groups or DISTINCT. -/
inductive Session.Gathered (table : String) : Session → Prop
  | fresh : Gathered table (.fresh table)
  | find {s : Session} (h : Gathered table s) (calls : List PredicateCall) :
      Gathered table (s.find calls)
  | addJoin {s : Session} (h : Gathered table s) (join : Join) (projection : Projection)
      (plain : projection.distinct = false) : Gathered table (s.addJoin join projection)
  | project {s : Session} (h : Gathered table s) (projection : Projection)
      (plain : projection.distinct = false) : Gathered table (s.project projection)
  | limit {s : Session} (h : Gathered table s) (n : UInt64) : Gathered table (s.withLimit n)
  | offset {s : Session} (h : Gathered table s) (n : UInt64) : Gathered table (s.withOffset n)
  | last {s : Session} (h : Gathered table s) (n : UInt64) : Gathered table (s.withLast n)

/-- What all these states have in common. -/
structure Session.IsUnordered (table : String) (s : Session) : Prop where
  base : s.graph.base = table
  single : s.graph.isSingle = true → s.graph = .single table
  order : s.order = none
  groupBy : s.groupBy = []
  having : s.having = none
  plain : ∀ p ∈ s.projections, p.distinct = false

/-- A graph that was joined is no single table. -/
theorem isSingle_add (g : JoinGraph) (j : Join) : (g.add j).isSingle = false := by
  simp [JoinGraph.add, JoinGraph.addEdge, JoinGraph.isSingle]

theorem Session.Gathered.isUnordered {table : String} {s : Session} (h : Gathered table s) :
    s.IsUnordered table := by
  induction h with
  | fresh => exact ⟨rfl, fun _ => rfl, rfl, rfl, rfl, by simp [Session.fresh]⟩
  | find _ _ ih | limit _ _ ih | offset _ _ ih | last _ _ ih =>
    exact ⟨ih.base, ih.single, ih.order, ih.groupBy, ih.having, ih.plain⟩
  | addJoin _ join projection plain ih =>
    refine ⟨ih.base, fun hsingle => ?_, ih.order, ih.groupBy, ih.having, ?_⟩
    · exact absurd hsingle (by simp [Session.addJoin, isSingle_add])
    · intro p hp
      rcases List.mem_append.mp hp with hp | hp
      · exact ih.plain p hp
      · exact List.mem_singleton.mp hp ▸ plain
  | project _ projection plain ih =>
    refine ⟨ih.base, ih.single, ih.order, ih.groupBy, ih.having, fun p hp => ?_⟩
    rcases List.mem_append.mp hp with hp | hp
    · exact ih.plain p hp
    · exact List.mem_singleton.mp hp ▸ plain

/-- The first rows that a session is about, and the last ones, have the same identifiers. -/
def Session.EndsAgree (db : Database ρ ν) (s : Session) : Prop :=
  ∀ v, v ≠ db.null →
    (v ∈ window s.limit s.offset
        (db.identifiers s.graph.base (db.matching s.graph s.selection)) ↔
      v ∈ window s.limit s.offset
        (db.identifiers s.graph.base (db.matching s.graph s.selection)).reverse)

/-- What a session hands over to a mutation is about the same rows, unless the last ones were asked
for. -/
theorem rowids_set_eq_iff {db : Database ρ ν} {s : Session} {verb : Verb} :
    (s.set.1.request verb).rowids db = s.request.rowids db ↔ (s.last = true → s.EndsAgree db) := by
  have hmutation : (s.set.1.request verb).ids db = window s.limit s.offset
      (db.identifiers s.graph.base (db.matching s.graph s.selection)) := rfl
  have hselect : s.request.ids db = window s.limit s.offset
      (db.directed s.graph.base s.last (db.matching s.graph s.selection)) := rfl
  rw [Set.ext_iff]
  simp only [Request.rowids, Set.mem_ofPred_eq, and_congr_right_iff, hmutation, hselect]
  cases s.last with
  | false => simp [Database.directed]
  | true => simp [Database.directed, Session.EndsAgree]

/-- **A mutation addresses the rows that its session would select, exactly if the session did not
ask for the last rows**, or these are the first ones, too.  Both statements compile and mean
something. -/
theorem addresses_eq_rowids_iff (db : Database ρ ν) {table : String} {s : Session} {verb : Verb}
    (h : s.Gathered table) (hclean : IsClean table) (hoffset : s.offset.toNat < 2 ^ 63)
    (hverb : verb.isMutation = true) :
    s.selectStatement = .ok s.select.written ∧ (∃ out, s.select.Yields db out) ∧
      (∃ ids, (s.set.1.request verb).toEngine.Addresses db ids) ∧
      ∀ out ids, s.select.Yields db out → (s.set.1.request verb).toEngine.Addresses db ids →
        (ids = db.rowids table out ↔ (s.last = true → s.EndsAgree db)) := by
  obtain ⟨rfl, hsingle, horder, hgroup, hhaving, hplain⟩ := h.isUnordered
  have hselect : s.request.order = "" := by simp [Session.request, horder, Order.text, Order.empty]
  have hnone : s.select.having.isNone = true := s.isNone_having_select hhaving
  have haddresses : ∀ ids, (s.set.1.request verb).toEngine.Addresses db ids ↔
      ids = (s.set.1.request verb).rowids db := fun _ =>
    addresses_iff (r := s.set.1.request verb) rfl hclean hoffset hverb hsingle
  obtain ⟨out, hout⟩ := exists_yields (r := s.request) hselect hclean hoffset rfl db
  refine ⟨s.selectStatement_of_having hhaving, ⟨out, hgroup, hnone, .inr hplain, hout⟩,
    ⟨_, (haddresses _).mpr rfl⟩, ?_⟩
  rintro out ids ⟨-, -, -, hout⟩ hids
  have hrowids : db.rowids s.graph.base out = s.request.rowids db :=
    rowids_of_yields (r := s.request) hselect hclean hoffset rfl hout
  rw [(haddresses ids).mp hids, hrowids, rowids_set_eq_iff]

/-! ## 4. First rows in the place of last ones -/

/-- The last two rows by identifier. -/
def lastTwo : Session := (Session.fresh "points").withLast 2

theorem sorts_points_of_pairwise {rows : List (Nat × Nat)}
    (h : rows.Pairwise fun a b => a.1 ≤ b.1) :
    points.Sorts (resolveOrder "points" "" false) rows rows := by
  refine ⟨[("points.rowid", .asc)], by decide, List.Perm.refl _, ?_⟩
  exact h.imp fun hle => Database.isLE_compareKeys_single.mpr hle

theorem matching_points :
    points.matching (.single "points") .none = [(1, 30), (2, 10), (3, 20)] := by
  decide

theorem yields_lastTwo : lastTwo.select.Yields points [(2, 10), (3, 20)] := by
  have hdesc : points.Sorts (resolveOrder "points" "" true)
      (points.matching (.single "points") .none) [(3, 20), (2, 10), (1, 30)] := by
    rw [matching_points]
    refine ⟨[("points.rowid", .desc)], by decide, by decide, ?_⟩
    unfold Database.IsSorted
    decide
  have hpicks : lastTwo.request.rowidQuery.Picks points [3, 2] :=
    ⟨[(3, 20), (2, 10), (1, 30)], [(3, 20), (2, 10)], hdesc, by decide, by decide⟩
  have hasc : points.Sorts (resolveOrder "points" "" false) [(2, 10), (3, 20)]
      [(2, 10), (3, 20)] := sorts_points_of_pairwise (by decide)
  exact ⟨rfl, by decide, .inl rfl, [(2, 10), (3, 20)], [(2, 10), (3, 20)],
    ⟨[3, 2], hpicks, by decide⟩, hasc, by decide⟩

theorem addresses_lastTwo :
    (lastTwo.set.1.request .delete).toEngine.Addresses points {1, 2} := by
  have hasc : points.Sorts (resolveOrder "points" "" false)
      (points.matching (.single "points") .none) [(1, 30), (2, 10), (3, 20)] := by
    rw [matching_points]
    exact sorts_points_of_pairwise (by decide)
  have hpicks : (lastTwo.set.1.request .delete).rowidQuery.Picks points [1, 2] :=
    ⟨[(1, 30), (2, 10), (3, 20)], [(1, 30), (2, 10)], hasc, by decide, by decide⟩
  have hids : [(1, 30), (2, 10)].map (points.rowidOf "points") = [1, 2] := by decide
  refine ⟨[(1, 30), (2, 10)], ⟨[1, 2], hpicks, by decide⟩, ?_⟩
  refine Set.ext fun v => Iff.trans ?_ List.mem_map
  change v ∈ ({1, 2} : Set Nat) ↔ v ∈ [(1, 30), (2, 10)].map (points.rowidOf "points")
  rw [hids]
  simp

/-- **A deletion of the wrong rows**: the session selects the rows 2 and 3, and the deletion that it
turns into addresses the rows 1 and 2. -/
theorem addresses_ne_rowids_lastTwo :
    lastTwo.Gathered "points" ∧ lastTwo.select.Yields points [(2, 10), (3, 20)] ∧
      (lastTwo.set.1.request .delete).toEngine.Addresses points {1, 2} ∧
      ({1, 2} : Set Nat) ≠ points.rowids "points" [(2, 10), (3, 20)] := by
  refine ⟨.last .fresh 2, yields_lastTwo, addresses_lastTwo, fun heq => ?_⟩
  have hone : (1 : Nat) ∈ points.rowids "points" [(2, 10), (3, 20)] := heq ▸ Set.mem_insert 1 {2}
  obtain ⟨-, row, hrow, hid⟩ := hone
  have hrows : ∀ row ∈ [(2, 10), (3, 20)], points.rowidOf "points" row ≠ 1 := by decide
  exact hrows row hrow hid

/-- The first two rows by identifier. -/
def firstTwo : Session := (Session.fresh "points").withLimit 2

theorem addresses_firstTwo :
    ∃ out ids, firstTwo.select.Yields points out ∧
      (firstTwo.set.1.request .delete).toEngine.Addresses points ids ∧
      ids = points.rowids "points" out := by
  have hgathered : firstTwo.Gathered "points" := .limit .fresh 2
  have hverb : Verb.delete.isMutation = true := rfl
  obtain ⟨-, ⟨out, hout⟩, ⟨ids, hids⟩, heq⟩ :=
    addresses_eq_rowids_iff points hgathered (by decide) (by decide) hverb
  exact ⟨out, ids, hout, hids, (heq out ids hout hids).mpr fun hlast => Bool.noConfusion hlast⟩

end Tabula.Query
