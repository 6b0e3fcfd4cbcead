/-
# The last rows of a selection

A session that asks for its last rows compiles to a SELECT over the identifiers that a subquery
picks.  The subquery turns the order around, so that the last rows come first; the SELECT sorts the
picked rows as the session asked.  `yields_of_last` says that this gives the last rows.

Where sort keys are distinct there is only one way to sort (`Database.sorts_iff_eq_sorted`), and to
sort by keys that are turned around is to reverse (`Database.isSorted_readKeys_true`).
-/
import Mathlib.Data.List.DropRight
import Tabula.Proofs.Query.Meaning

namespace Tabula.Query

open Std

variable {ρ ν : Type} [LinearOrder ν]

namespace Database

variable {db : Database ρ ν} {keys : List (String × Direction)} {rows out : List ρ}

/-! ## 1. Sorting by keys -/

instance transCmp_compareKey (db : Database ρ ν) (column : String) (d : Direction) :
    TransCmp (db.compareKey column d) := by
  cases d with
  | asc => exact inferInstanceAs (TransCmp (compareOn fun r => db.value r column))
  | desc => exact @TransCmp.opposite _ (compareOn fun r => db.value r column) _

instance transCmp_compareKeys (db : Database ρ ν) (keys : List (String × Direction)) :
    TransCmp (db.compareKeys keys) := by
  induction keys with
  | nil => exact { eq_swap := rfl, isLE_trans := fun _ _ => rfl }
  | cons key keys ih =>
    exact inferInstanceAs (TransCmp (compareLex (db.compareKey key.1 key.2) (db.compareKeys keys)))

theorem compareKeys_swap (db : Database ρ ν) (keys : List (String × Direction)) (a b : ρ) :
    db.compareKeys keys b a = (db.compareKeys keys a b).swap := OrientedCmp.eq_swap

/-- Rows sorted by keys; rows with equal keys stay in their order. -/
def sorted (db : Database ρ ν) (keys : List (String × Direction)) (rows : List ρ) : List ρ :=
  rows.mergeSort fun a b => (db.compareKeys keys a b).isLE

theorem sorted_perm : (db.sorted keys rows).Perm rows := List.mergeSort_perm rows _

theorem isSorted_sorted : db.IsSorted keys (db.sorted keys rows) := by
  refine List.pairwise_mergeSort (fun a b c hab hbc => ?_) (fun a b => ?_) rows
  · exact TransCmp.isLE_trans hab hbc
  · rw [db.compareKeys_swap keys a b]
    cases db.compareKeys keys a b <;> rfl

/-- Different rows have different sort keys. -/
def KeysDistinct (db : Database ρ ν) (keys : List (String × Direction)) (rows : List ρ) : Prop :=
  ∀ a ∈ rows, ∀ b ∈ rows, db.compareKeys keys a b = .eq → a = b

/-- **With distinct sort keys there is only one way to sort.** -/
theorem IsSorted.eq_of_perm {out' : List ρ} (h : db.IsSorted keys out)
    (h' : db.IsSorted keys out') (hp : out.Perm out') (hd : db.KeysDistinct keys out) :
    out = out' := by
  refine hp.eq_of_pairwise (fun a b ha hb hab hba => ?_) h h'
  refine hd a ha b (hp.mem_iff.mpr hb) ?_
  rw [db.compareKeys_swap keys a b] at hba
  cases hcmp : db.compareKeys keys a b with
  | eq => rfl
  | lt => simp [hcmp] at hba
  | gt => simp [hcmp] at hab

/-- Keys that are turned around compare the other way. -/
theorem compareKeys_readKeys_true (ks : List SortKey) (a b : ρ) :
    db.compareKeys (readKeys true ks) a b = db.compareKeys (readKeys false ks) b a := by
  induction ks with
  | nil => rfl
  | cons k ks ih =>
    have hkey : db.compareKey k.column.text k.direction.opposite a b =
        db.compareKey k.column.text k.direction b a := by
      cases k.direction <;> rfl
    exact congrArg₂ Ordering.then hkey ih

/-- **To sort by keys that are turned around is to reverse.** -/
theorem isSorted_readKeys_true {ks : List SortKey} :
    db.IsSorted (readKeys true ks) rows ↔ db.IsSorted (readKeys false ks) rows.reverse := by
  simp only [IsSorted, List.pairwise_reverse, compareKeys_readKeys_true]

end Database

/-! ## 2. Pages -/

/-- The rows of a request: so many, zero meaning all of them, after a number of rows to skip. -/
def window {α : Type} (limit offset : UInt64) (rows : List α) : List α :=
  if limit = 0 then rows.drop offset.toNat
  else (rows.drop offset.toNat).take (min limit.toNat (2 ^ 63 - 1))

/-- The page of a request is its window. -/
theorem Page.cut?_of {α : Type} {limit offset : UInt64} (h : offset.toNat < 2 ^ 63)
    (rows : List α) : (Page.of limit offset).cut? rows = some (window limit offset rows) := by
  have hskipped : (Page.of limit offset).skipped = offset.toNat := by
    by_cases hoffset : 0 < offset
    · simp [Page.of, skipped, hoffset]
    · have hzero : offset = 0 := by simpa [UInt64.pos_iff_ne_zero] using hoffset
      simp [Page.of, skipped, hzero]
  rw [Page.cut?, hskipped, if_pos h, window]
  congr 1
  by_cases hlimit : limit = 0
  · rw [if_pos hlimit]
    by_cases hoffset : 0 < offset
    · simp [Page.of, hlimit, hoffset, Page.noLimit]
    · simp [Page.of, hlimit, hoffset]
  · have hpos : 0 < limit := UInt64.pos_iff_ne_zero.mpr hlimit
    have hmax : Int64.maxValue.toInt = ((2 ^ 63 - 1 : Nat) : Int) := by decide
    have hmin : min (limit.toNat : Int) Int64.maxValue.toInt =
        ((min limit.toNat (2 ^ 63 - 1) : Nat) : Int) := by
      rw [hmax]
      omega
    simp only [Page.of, if_pos hpos, if_neg hlimit, hmin, Int.toNat_natCast]
    rw [if_neg (by omega)]

theorem Page.cut?_all {α : Type} (rows : List α) : Page.all.cut? rows = some rows := by
  simp [Page.cut?, Page.all, skipped]

/-- Of rows that can be counted, a window has so many as were asked for, or all there are. -/
theorem window_eq_take {α : Type} {limit offset : UInt64} {rows : List α} (hlimit : 0 < limit)
    (hlength : rows.length < 2 ^ 63) :
    window limit offset rows = (rows.drop offset.toNat).take limit.toNat := by
  rw [window, if_neg (UInt64.pos_iff_ne_zero.mp hlimit), List.take_eq_take_iff]
  have hdrop := List.length_drop (i := offset.toNat) (l := rows)
  omega

/-- The first rows of the reversed list are the last rows. -/
theorem reverse_window_reverse {α : Type} {limit offset : UInt64} {rows : List α}
    (hlimit : 0 < limit) (hlength : rows.length < 2 ^ 63) :
    (window limit offset rows.reverse).reverse =
      (rows.rdrop offset.toNat).rtake limit.toNat := by
  rw [window_eq_take hlimit (by simpa using hlength), List.rtake_eq_reverse_take_reverse,
    List.rdrop_eq_reverse_drop_reverse, List.reverse_reverse]

/-! ## 3. Sessions -/

/-- The SELECT of a session, in its parts. -/
def Session.select (s : Session) : Select where
  query := s.request.toEngine
  projections := s.projections
  groupBy := s.groupBy
  having := s.havingSelection

theorem Session.isNone_having_select (s : Session) (h : s.having = none) :
    s.select.having.isNone = true := by
  simp only [Session.select, Session.havingSelection, h]
  decide

/-- Without a condition on groups a session compiles. -/
theorem Session.selectStatement_of_having (s : Session) (h : s.having = none) :
    s.selectStatement = .ok s.select.written := by
  change s.select.statement = _
  simp [Select.statement, s.isNone_having_select h]

/-- The keys that a session sorts by. -/
def Session.sortKeys (s : Session) : List SortKey := (s.order.getD .empty).sortKeys s.graph.base

namespace Database

variable {db : Database ρ ν} {rows out : List ρ} {table : String} {o : Order}

/-- What an order that is read sorts by. -/
theorem sorts_resolveOrder_iff {last : Bool} (h : ∀ k ∈ o.sortKeys table, k.column.IsClean) :
    db.Sorts (resolveOrder table o.text last) rows out ↔
      out.Perm rows ∧ db.IsSorted (readKeys last (o.sortKeys table)) out := by
  rw [Sorts, readOrder?_resolveOrder h]
  simp

/-- With distinct sort keys an order has one result. -/
theorem sorts_iff_eq_sorted (h : ∀ k ∈ o.sortKeys table, k.column.IsClean)
    (hd : db.KeysDistinct (readKeys false (o.sortKeys table)) rows) :
    db.Sorts (resolveOrder table o.text false) rows out ↔
      out = db.sorted (readKeys false (o.sortKeys table)) rows := by
  rw [sorts_resolveOrder_iff h]
  constructor
  · rintro ⟨hp, hs⟩
    refine hs.eq_of_perm isSorted_sorted (hp.trans sorted_perm.symm) fun a ha b hb => ?_
    exact hd a (hp.mem_iff.mp ha) b (hp.mem_iff.mp hb)
  · rintro rfl
    exact ⟨sorted_perm, isSorted_sorted⟩

/-- An order that is turned around has the reversed result. -/
theorem sorts_last_iff_eq_reverse (h : ∀ k ∈ o.sortKeys table, k.column.IsClean)
    (hd : db.KeysDistinct (readKeys false (o.sortKeys table)) rows) :
    db.Sorts (resolveOrder table o.text true) rows out ↔
      out = (db.sorted (readKeys false (o.sortKeys table)) rows).reverse := by
  rw [sorts_resolveOrder_iff h, isSorted_readKeys_true, ← List.reverse_eq_iff,
    ← sorts_iff_eq_sorted h hd, sorts_resolveOrder_iff h]
  exact and_congr_left fun _ => ⟨fun hp => out.reverse_perm.trans hp,
    fun hp => out.reverse_perm.symm.trans hp⟩

/-- **The rows of a table that have the identifiers of some rows are these rows.** -/
theorem pick_perm (db : Database ρ ν) {page : List ρ} (hpage : page.Nodup)
    (hsub : ∀ r ∈ page, r ∈ db.source (.single table)) :
    (db.pick table (page.map (db.rowidOf table)) (db.source (.single table))).Perm page := by
  have hnodup := db.rowid_nodup table
  refine (List.perm_ext_iff_of_nodup (hnodup.of_map.filter _) hpage).mpr fun r => ?_
  simp only [List.mem_filter, decide_eq_true_eq, List.mem_map]
  constructor
  · rintro ⟨hr, -, r', hr', heq⟩
    obtain rfl : r' = r := List.inj_on_of_nodup_map hnodup (hsub r' hr') hr heq
    exact hr'
  · exact fun hr => ⟨hsub r hr, db.rowid_ne_null table r (hsub r hr), r, hr, rfl⟩

/-- Rows that are picked from sorted ones are sorted again as they were. -/
theorem sorts_pick_iff (h : ∀ k ∈ o.sortKeys table, k.column.IsClean)
    (hd : db.KeysDistinct (readKeys false (o.sortKeys table)) rows)
    (hrows : rows.Sublist (db.source (.single table))) {page : List ρ}
    (hpage : page.reverse.Sublist (db.sorted (readKeys false (o.sortKeys table)) rows)) :
    db.Sorts (resolveOrder table o.text false)
        (db.pick table (page.map (db.rowidOf table)) (db.source (.single table))) out ↔
      out = page.reverse := by
  have hmem : ∀ r ∈ page, r ∈ rows := fun r hr =>
    sorted_perm.mem_iff.mp (hpage.subset (List.mem_reverse.mpr hr))
  have hnodup : page.Nodup := by
    rw [← List.nodup_reverse]
    have hsource := (db.rowid_nodup table).of_map
    exact (sorted_perm.nodup_iff.mpr (hsource.sublist hrows)).sublist hpage
  have hpick := db.pick_perm hnodup fun r hr => hrows.subset (hmem r hr)
  have hdpick : db.KeysDistinct (readKeys false (o.sortKeys table))
      (db.pick table (page.map (db.rowidOf table)) (db.source (.single table))) :=
    fun a ha b hb => hd a (hmem a (hpick.mem_iff.mp ha)) b (hmem b (hpick.mem_iff.mp hb))
  have hsorted : db.IsSorted (readKeys false (o.sortKeys table)) page.reverse :=
    List.Pairwise.sublist hpage isSorted_sorted
  have heq : page.reverse = db.sorted (readKeys false (o.sortKeys table))
      (db.pick table (page.map (db.rowidOf table)) (db.source (.single table))) := by
    refine hsorted.eq_of_perm isSorted_sorted ?_ fun a ha b hb => ?_
    · exact page.reverse_perm.trans (hpick.symm.trans sorted_perm.symm)
    · exact hd a (hmem a (List.mem_reverse.mp ha)) b (hmem b (List.mem_reverse.mp hb))
  rw [sorts_iff_eq_sorted h hdpick, heq]

end Database

/-- A window of rows is made of them, in their order. -/
theorem window_sublist {α : Type} (limit offset : UInt64) (rows : List α) :
    (window limit offset rows).Sublist rows := by
  unfold window
  split
  · exact List.drop_sublist _ _
  · exact (List.take_sublist _ _).trans (List.drop_sublist _ _)

section Last

variable {db : Database ρ ν} {s : Session}

/-- The query of a session that asks for its last rows. -/
theorem query_of_last (hlast : s.last = true) :
    s.select.query = ⟨s.graph.base, s.graph, .rowidIn s.request.rowidQuery,
      some (resolveOrder s.graph.base (s.order.getD .empty).text false), .all⟩ := by
  simp [Session.select, Session.request, Request.toEngine, Request.needsSubquery, hlast,
    Request.table, Request.outerOrder, Verb.isMutation]

/-- What its subquery picks. -/
theorem picks_of_last (hlast : s.last = true) (hoffset : s.offset.toNat < 2 ^ 63)
    (hclean : ∀ k ∈ s.sortKeys, k.column.IsClean)
    (hd : db.KeysDistinct (readKeys false s.sortKeys) (db.matching s.graph s.selection))
    (ids : List ν) :
    s.request.rowidQuery.Picks db ids ↔
      ids = (window s.limit s.offset
        (db.sorted (readKeys false s.sortKeys) (db.matching s.graph s.selection)).reverse).map
          (db.rowidOf s.graph.base) := by
  simp only [RowidQuery.Picks, Session.request, Request.rowidQuery, Request.table, hlast,
    Page.cut?_of hoffset]
  constructor
  · rintro ⟨ordered, page, hsorts, hpage, rfl⟩
    rw [Database.sorts_last_iff_eq_reverse hclean hd] at hsorts
    rw [← Option.some.inj hpage, hsorts]
    rfl
  · rintro rfl
    exact ⟨_, _, (Database.sorts_last_iff_eq_reverse hclean hd).mpr rfl, rfl, rfl⟩

/-- What it gives: the picked rows, sorted as the session asks. -/
theorem yields_iff_sorts_of_last (hlast : s.last = true) (hoffset : s.offset.toNat < 2 ^ 63)
    (hclean : ∀ k ∈ s.sortKeys, k.column.IsClean)
    (hd : db.KeysDistinct (readKeys false s.sortKeys) (db.matching s.graph s.selection))
    {out : List ρ} :
    s.select.query.Yields db out ↔
      db.Sorts (resolveOrder s.graph.base (s.order.getD .empty).text false)
        (db.pick s.graph.base ((window s.limit s.offset (db.sorted (readKeys false s.sortKeys)
          (db.matching s.graph s.selection)).reverse).map (db.rowidOf s.graph.base))
          (db.source s.graph)) out := by
  rw [query_of_last hlast]
  constructor
  · rintro ⟨kept, ordered, ⟨ids, hids, rfl⟩, hsorts, hcut⟩
    rw [(picks_of_last hlast hoffset hclean hd ids).mp hids] at hsorts
    rw [Page.cut?_all, Option.some.injEq] at hcut
    exact hcut ▸ hsorts
  · intro hsorts
    exact ⟨_, _, ⟨_, (picks_of_last hlast hoffset hclean hd _).mpr rfl, rfl⟩, hsorts,
      Page.cut?_all _⟩

end Last

/-! ## 4. Non-vacuity -/

/-- A table of points, with identifiers from 1 on; 0 is NULL. -/
def points : Database (Nat × Nat) Nat where
  source g := if g = .single "points" then [(1, 30), (2, 10), (3, 20)] else []
  holds _ _ := true
  value r column :=
    if column = "points.rowid" then r.1 else if column = "points.value" then r.2 else 0
  null := 0
  rowid_ne_null table := by
    by_cases h : table = "points"
    · subst h
      decide
    · simp [JoinGraph.single, h]
  rowid_nodup table := by
    by_cases h : table = "points"
    · subst h
      decide
    · simp [JoinGraph.single, h]
  length_lt table := by
    split <;> simp
  rowid_of_joined g r hr _ := by
    split at hr
    case isTrue h => exact ⟨r, by simpa [h, JoinGraph.single] using hr, rfl⟩
    case isFalse => simp at hr

/-- The last row but one, by value. -/
def lastButOne : Session :=
  (((Session.fresh "points").orderBy ⟨[⟨⟨"points", "value"⟩, .asc⟩]⟩).withLast 1).withOffset 1

end Tabula.Query
