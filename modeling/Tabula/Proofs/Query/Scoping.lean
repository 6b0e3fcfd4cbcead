/-
# Which tables a condition of a join may name

The FROM text names the base table and then, JOIN by JOIN, one more table.  An engine reads it from
left to right: each table must be named once, and the conditions of an ON clause may speak of the
table that its JOIN brings in and of those before it (`JoinGraph.WellScoped`).

A join that brings in a table hangs it on one that is there, so its condition is in scope.  A join
of two tables that are both there goes into the JOIN of its child, wherever that stands.

* `JoinGraph.IsGrown`: what the graph is like while every join links two tables, of which one is
  there.
* `wellScoped_iff`: the text is well scoped exactly if no join has the base table as its partner,
  and the edges that a JOIN got later on hang on tables before it.
* `not_wellScoped_captains`: a pair of tables that refer to each other breaks both halves.
-/
import Mathlib.Data.List.Nodup
import Tabula.Proofs.Query.PlainText

namespace Tabula.Query.JoinGraph

/-! ## 1. Scopes -/

/-- The edges whose conditions stand in the ON clause of a JOIN. -/
def Group.conditions (p : Group) : List JoinEdge :=
  if p.first.kind.hasCondition then p.first :: p.others else []

/-- The text of a JOIN, by its partner and its conditions. -/
theorem Group.text_eq (p : Group) :
    p.text = " " ++ p.first.kind.text ++ " " ++ p.partner ++
      if p.conditions = [] then ""
      else " ON " ++ String.intercalate " AND " (p.conditions.map JoinEdge.condition) := by
  unfold Group.text Group.conditions
  split <;> simp

/-- The tables that the FROM text names, in order. -/
def named (g : JoinGraph) : List String := g.base :: g.groups.map Group.partner

/-- After some tables, each condition is about the table that its JOIN brings in and about tables
before it. -/
def Scoped : List String → List Group → Prop
  | _, [] => True
  | seen, p :: ps =>
    (∀ e ∈ p.conditions, ∀ t ∈ [e.partner.table, e.anchor.table], t = p.partner ∨ t ∈ seen) ∧
      Scoped (seen ++ [p.partner]) ps

instance decidableScoped : (seen : List String) → (ps : List Group) → Decidable (Scoped seen ps)
  | _, [] => inferInstanceAs (Decidable True)
  | seen, p :: ps =>
    have := decidableScoped (seen ++ [p.partner]) ps
    inferInstanceAs (Decidable (_ ∧ _))

/-- **The FROM text names each table of the graph once, and its conditions are in scope.** -/
structure WellScoped (g : JoinGraph) : Prop where
  once : ∀ t ∈ g.tables, g.named.count t = 1
  inScope : Scoped [g.base] g.groups

/-- A join links two tables, one of which is part of the graph. -/
def Connects (g : JoinGraph) (j : Join) : Prop :=
  j.parent.table ≠ j.child.table ∧ (j.parent.table ∈ g.tables ∨ j.child.table ∈ g.tables)

/-- Each join connects with those before it. -/
def Connected : JoinGraph → List Join → Prop
  | _, [] => True
  | g, j :: js => g.Connects j ∧ Connected (g.add j) js

instance (g : JoinGraph) (j : Join) : Decidable (g.Connects j) :=
  inferInstanceAs (Decidable (_ ∧ _))

instance decidableConnected : (g : JoinGraph) → (js : List Join) → Decidable (Connected g js)
  | _, [] => inferInstanceAs (Decidable True)
  | g, j :: js =>
    have := decidableConnected (g.add j) js
    inferInstanceAs (Decidable (_ ∧ _))

/-! ## 2. Groups -/

variable {g : JoinGraph} {ps : List Group} {p : Group} {e : JoinEdge} {j : Join}

theorem groups_addEdge : (g.addEdge e).groups = insertEdge g.groups e := by
  simp [groups, addEdge]

/-- A new edge goes to the group of its partner, or it is a group of its own. -/
theorem mem_insertEdge_cases (h : p ∈ insertEdge ps e) :
    p ∈ ps ∨ (∃ q ∈ ps, q.partner = e.partner.table ∧ p = ⟨q.first, q.others ++ [e]⟩) ∨
      p = ⟨e, []⟩ ∧ e.partner.table ∉ ps.map Group.partner := by
  induction ps with
  | nil => exact .inr (.inr ⟨List.mem_singleton.mp h, List.not_mem_nil⟩)
  | cons q ps ih =>
    unfold insertEdge at h
    split at h
    case isTrue hq =>
      rcases List.mem_cons.mp h with rfl | h
      · exact .inr (.inl ⟨q, List.mem_cons_self, hq, rfl⟩)
      · exact .inl (List.mem_cons_of_mem _ h)
    case isFalse hq =>
      rcases List.mem_cons.mp h with rfl | h
      · exact .inl List.mem_cons_self
      · rcases ih h with hp | ⟨q', hq', hp⟩ | ⟨rfl, hnew⟩
        · exact .inl (List.mem_cons_of_mem _ hp)
        · exact .inr (.inl ⟨q', List.mem_cons_of_mem _ hq', hp⟩)
        · exact .inr (.inr ⟨rfl, by simpa [Ne.symm hq] using hnew⟩)

/-- A partner is listed when its first edge is. -/
theorem map_partner_insertEdge :
    (insertEdge ps e).map Group.partner =
      if e.partner.table ∈ ps.map Group.partner then ps.map Group.partner
      else ps.map Group.partner ++ [e.partner.table] := by
  induction ps with
  | nil => rfl
  | cons p ps ih =>
    unfold insertEdge
    by_cases hp : p.partner = e.partner.table
    · rw [if_pos hp, if_pos (by simp [hp])]
      rfl
    · rw [if_neg hp, List.map_cons, ih]
      simp only [List.map_cons, List.mem_cons, Ne.symm hp, false_or]
      split <;> simp

/-- The partners of the groups are those of the edges. -/
theorem mem_partners_iff {t : String} :
    t ∈ g.groups.map Group.partner ↔ ∃ e ∈ g.edges, e.partner.table = t := by
  rw [map_partner_groups, mem_partners]

/-! ## 3. Grown graphs -/

/-- The table that an edge hangs on is part of the graph. -/
theorem anchor_mem_of_connects (h : g.Connects j) : (g.orient j).anchor.table ∈ g.tables := by
  unfold orient contains
  split
  case isTrue hnew =>
    simp only [Bool.and_eq_true, List.contains_iff_mem] at hnew
    exact hnew.2
  case isFalse hnew =>
    simp only [Bool.and_eq_true, Bool.not_eq_true', List.contains_eq_mem, decide_eq_false_iff_not,
      decide_eq_true_eq, not_and'] at hnew
    exact h.2.elim id fun hchild => Decidable.not_not.mp (hnew hchild)

theorem anchor_ne_partner_of_connects (h : g.Connects j) :
    (g.orient j).anchor.table ≠ (g.orient j).partner.table := by
  unfold orient
  split
  · exact h.1.symm
  · exact h.1

/-- **A graph that was grown by joins of which each connects with those before it.** -/
structure IsGrown (g : JoinGraph) : Prop where
  /-- The tables are those of the FROM text, but for a base table that is named again. -/
  tables : g.tables = g.base :: (g.groups.map Group.partner).filter (· != g.base)
  nodup : (g.groups.map Group.partner).Nodup
  distinct : ∀ e ∈ g.edges, e.anchor.table ≠ e.partner.table
  /-- A table is brought in by an edge that hangs on an earlier one. -/
  first : ∀ p ∈ g.groups, p.partner ≠ g.base →
    g.tables.idxOf p.first.anchor.table < g.tables.idxOf p.partner

theorem isGrown_single (base : String) : (single base).IsGrown := by
  constructor <;> simp [single, groups]

/-- The tables of a grown graph are its base table and the partners. -/
theorem IsGrown.mem_tables_iff (h : g.IsGrown) {t : String} :
    t ∈ g.tables ↔ t = g.base ∨ t ∈ g.groups.map Group.partner := by
  rw [h.tables, List.mem_cons, List.mem_filter, bne_iff_ne]
  by_cases ht : t = g.base <;> simp [ht]

/-- **A join that connects keeps a graph grown.** -/
theorem IsGrown.add (h : g.IsGrown) (hj : g.Connects j) : (g.add j).IsGrown := by
  have hanchor := anchor_mem_of_connects hj
  have hne := anchor_ne_partner_of_connects hj
  generalize he : g.orient j = e at hanchor hne
  have hadd : g.add j = g.addEdge e := by rw [JoinGraph.add, he]
  have hpartner : e.partner.table ∈ g.groups.map Group.partner → e.partner.table ∈ g.tables :=
    fun hmem => h.mem_tables_iff.mpr (.inr hmem)
  -- A table that is there keeps its place.
  have hplace : ∀ {t}, t ∈ g.tables → (g.addEdge e).tables.idxOf t = g.tables.idxOf t := by
    intro t ht
    rw [tables_addEdge]
    split
    · rfl
    · exact List.idxOf_append_of_mem ht
  rw [hadd]
  refine ⟨?_, ?_, fun x hx => ?_, fun p hp hbase => ?_⟩
  · rw [tables_addEdge, groups_addEdge, map_partner_insertEdge]
    by_cases hnew : e.partner.table ∈ g.tables
    · rw [if_pos hnew, h.tables]
      rcases h.mem_tables_iff.mp hnew with hbase | hmem
      · split <;> simp [hbase, addEdge]
      · rw [if_pos hmem]
        rfl
    · rw [if_neg hnew, if_neg fun hmem => hnew (hpartner hmem), h.tables]
      have hbase : e.partner.table ≠ g.base := fun heq => hnew (h.mem_tables_iff.mpr (.inl heq))
      simp [List.filter_append, hbase, addEdge]
  · rw [map_partner_groups]
    exact nodup_partners _
  · rcases List.mem_append.mp hx with hx | hx
    · exact h.distinct x hx
    · rw [List.mem_singleton.mp hx]
      exact hne
  · -- An old group has the first edge that it had.
    have hold : ∀ q ∈ g.groups, q.partner ≠ g.base →
        (g.addEdge e).tables.idxOf q.first.anchor.table <
          (g.addEdge e).tables.idxOf q.partner := by
      intro q hq hqbase
      have hlt := h.first q hq hqbase
      have hmem : q.partner ∈ g.tables :=
        h.mem_tables_iff.mpr (.inr (List.mem_map_of_mem hq))
      have hfirst : q.first.anchor.table ∈ g.tables :=
        List.idxOf_lt_length_iff.mp (Nat.lt_trans hlt (List.idxOf_lt_length_iff.mpr hmem))
      rwa [hplace hfirst, hplace hmem]
    rw [groups_addEdge] at hp
    rcases mem_insertEdge_cases hp with hp | ⟨q, hq, -, rfl⟩ | ⟨rfl, hnew⟩
    · exact hold p hp hbase
    · exact hold q hq hbase
    · have habsent : e.partner.table ∉ g.tables :=
        fun hmem => (h.mem_tables_iff.mp hmem).elim hbase hnew
      rw [hplace hanchor, tables_addEdge, if_neg habsent]
      simp only [Group.partner]
      rw [List.idxOf_append_of_notMem habsent, List.idxOf_cons_self, Nat.add_zero]
      exact List.idxOf_lt_length_iff.mpr hanchor

/-- **Joins of which each connects with those before it grow a graph.** -/
theorem IsGrown.of_connected {joins : List Join} (h : g.IsGrown) (hj : Connected g joins) :
    (joins.foldl JoinGraph.add g).IsGrown := by
  induction joins generalizing g with
  | nil => exact h
  | cons j joins ih => exact ih (h.add hj.1) hj.2

/-! ## 4. The FROM text of a grown graph -/

/-- Conditions are in scope if edges hang on tables before those that they bring in. -/
theorem scoped_iff {seen : List String}
    (hnodup : (seen ++ ps.map Group.partner).Nodup)
    (hpartner : ∀ p ∈ ps, ∀ e ∈ p.conditions, e.partner.table = p.partner)
    (hne : ∀ p ∈ ps, ∀ e ∈ p.conditions, e.anchor.table ≠ p.partner) :
    Scoped seen ps ↔ ∀ p ∈ ps, ∀ e ∈ p.conditions,
      (seen ++ ps.map Group.partner).idxOf e.anchor.table <
        (seen ++ ps.map Group.partner).idxOf p.partner := by
  induction ps generalizing seen with
  | nil => simp [Scoped]
  | cons p ps ih =>
    have hlist : seen ++ (p :: ps).map Group.partner =
        seen ++ [p.partner] ++ ps.map Group.partner := by simp
    have hnew : p.partner ∉ seen := fun hmem =>
      (List.nodup_append.mp hnodup).2.2 _ hmem _ (by simp) rfl
    have hplace : (seen ++ [p.partner] ++ ps.map Group.partner).idxOf p.partner = seen.length := by
      rw [List.append_assoc, List.idxOf_append_of_notMem hnew]
      simp
    have hseen : ∀ t, t ∈ seen ↔
        (seen ++ [p.partner] ++ ps.map Group.partner).idxOf t < seen.length := by
      intro t
      rw [List.append_assoc, List.idxOf_append]
      split
      case isTrue ht => simpa [ht] using List.idxOf_lt_length_iff.mpr ht
      case isFalse ht => simp [ht]
    rw [hlist] at hnodup ⊢
    rw [List.forall_mem_cons, hplace, Scoped, ih hnodup
      (fun q hq => hpartner q (List.mem_cons_of_mem _ hq))
      fun q hq => hne q (List.mem_cons_of_mem _ hq)]
    refine and_congr_left fun _ => forall₂_congr fun e he => ?_
    rw [← hseen]
    simp [hpartner p List.mem_cons_self e he, hne p List.mem_cons_self e he]

/-- **The FROM text is well scoped exactly if no edge brings in the base table, and the edges that a
JOIN got after its first one hang on tables before it.**  Such edges come from joins of two tables
that are both there. -/
theorem IsGrown.wellScoped_iff (h : g.IsGrown) :
    g.WellScoped ↔ (∀ e ∈ g.edges, e.partner.table ≠ g.base) ∧
      ∀ p ∈ g.groups, p.first.kind.hasCondition = true → ∀ e ∈ p.others,
        g.tables.idxOf e.anchor.table < g.tables.idxOf p.partner := by
  have hedge : ∀ p ∈ g.groups, ∀ e ∈ p.conditions, e ∈ p.first :: p.others := by
    intro p _ e he
    unfold Group.conditions at he
    split at he
    · exact he
    · exact absurd he List.not_mem_nil
  have hpartner : ∀ p ∈ g.groups, ∀ e ∈ p.conditions, e.partner.table = p.partner :=
    fun p hp e he => partner_eq_of_mem_groups hp (hedge p hp e he)
  have hne : ∀ p ∈ g.groups, ∀ e ∈ p.conditions, e.anchor.table ≠ p.partner := fun p hp e he =>
    hpartner p hp e he ▸ h.distinct e (mem_edges_of_mem_groups hp (hedge p hp e he))
  -- If the base table is not named again, the text names the tables in their order.
  have hnamed : g.base ∉ g.groups.map Group.partner →
      g.tables = [g.base] ++ g.groups.map Group.partner ∧
        ([g.base] ++ g.groups.map Group.partner).Nodup := by
    intro hbase
    refine ⟨?_, List.nodup_cons.mpr ⟨hbase, h.nodup⟩⟩
    have hkept : ∀ t ∈ g.groups.map Group.partner, (t != g.base) = true := by
      intro t ht
      rw [bne_iff_ne]
      rintro rfl
      exact hbase ht
    rw [h.tables, List.filter_eq_self.mpr hkept]
    rfl
  have hbase : (∀ e ∈ g.edges, e.partner.table ≠ g.base) ↔
      g.base ∉ g.groups.map Group.partner := by
    rw [mem_partners_iff]
    simp
  rw [hbase]
  constructor
  · intro hscoped
    have hcount : g.base ∉ g.groups.map Group.partner := by
      have hone := hscoped.once g.base (h.mem_tables_iff.mpr (.inl rfl))
      rw [named, List.count_cons_self] at hone
      exact List.count_eq_zero.mp (by omega)
    obtain ⟨htables, hnodup⟩ := hnamed hcount
    refine ⟨hcount, fun p hp hk e he => ?_⟩
    have hcondition : e ∈ p.conditions := by
      rw [Group.conditions, if_pos hk]
      exact List.mem_cons_of_mem _ he
    rw [htables]
    exact (scoped_iff hnodup hpartner hne).mp hscoped.inScope p hp e hcondition
  · rintro ⟨hcount, hothers⟩
    obtain ⟨htables, hnodup⟩ := hnamed hcount
    refine ⟨fun t ht => ?_, (scoped_iff hnodup hpartner hne).mpr fun p hp e he => ?_⟩
    · rw [htables] at ht
      exact List.count_eq_one_of_mem hnodup ht
    rw [← htables]
    have hk : p.first.kind.hasCondition = true := by
      unfold Group.conditions at he
      split at he
      case isTrue hk => exact hk
      case isFalse => exact absurd he List.not_mem_nil
    rcases List.mem_cons.mp (hedge p hp e he) with rfl | he
    · exact h.first p hp fun heq => hcount (heq ▸ List.mem_map_of_mem hp)
    · exact hothers p hp hk e he

/-- **When the FROM text of joins is well scoped**, each of which links two tables, one of them part
of the graph when it is added. -/
theorem wellScoped_ofJoins_iff {base : String} {joins : List Join}
    (h : Connected (single base) joins) :
    (ofJoins base joins).WellScoped ↔
      (∀ e ∈ (ofJoins base joins).edges, e.partner.table ≠ (ofJoins base joins).base) ∧
      ∀ p ∈ (ofJoins base joins).groups, p.first.kind.hasCondition = true → ∀ e ∈ p.others,
        (ofJoins base joins).tables.idxOf e.anchor.table <
          (ofJoins base joins).tables.idxOf p.partner :=
  ((isGrown_single base).of_connected h).wellScoped_iff

/-! ## 5. Joins of two tables that are both there -/

/-- Teams with their members, and the captain of a team. -/
def captains : List Join :=
  [⟨.inner, ⟨"teams", "id"⟩, ⟨"members", "team"⟩⟩,
   ⟨.inner, ⟨"members", "id"⟩, ⟨"teams", "captain"⟩⟩]

/-- Authors with their posts and their reviews, and the review that a post answers. -/
def answers : List Join :=
  [⟨.inner, ⟨"authors", "id"⟩, ⟨"posts", "author"⟩⟩,
   ⟨.inner, ⟨"authors", "id"⟩, ⟨"reviews", "author"⟩⟩,
   ⟨.inner, ⟨"reviews", "id"⟩, ⟨"posts", "review"⟩⟩]

/-- **A FROM text that names its base table twice, and one with a condition on a later table.** -/
theorem not_wellScoped_captains :
    (Connected (single "teams") captains ∧
      (ofJoins "teams" captains).text =
        "teams INNER JOIN members ON members.team=teams.id" ++
          " INNER JOIN teams ON teams.captain=members.id" ∧
      (ofJoins "teams" captains).named.count "teams" = 2 ∧
      ¬(ofJoins "teams" captains).WellScoped) ∧
    Connected (single "authors") answers ∧
      (ofJoins "authors" answers).text =
        "authors INNER JOIN posts ON posts.author=authors.id AND posts.review=reviews.id" ++
          " INNER JOIN reviews ON reviews.author=authors.id" ∧
      ¬Scoped ["authors"] (ofJoins "authors" answers).groups ∧
      ¬(ofJoins "authors" answers).WellScoped := by
  have hcount : (ofJoins "teams" captains).named.count "teams" = 2 := by decide
  have hscoped : ¬Scoped ["authors"] (ofJoins "authors" answers).groups := by decide
  refine ⟨⟨by decide, by decide +kernel, hcount, fun h => ?_⟩, by decide, by decide +kernel,
    hscoped, fun h => hscoped h.inScope⟩
  have hone := h.once "teams" (by decide)
  omega

/-- Authors with their posts and their reviews, and the post that a review is about. -/
def reviewed : List Join :=
  [⟨.inner, ⟨"authors", "id"⟩, ⟨"posts", "author"⟩⟩,
   ⟨.left, ⟨"authors", "id"⟩, ⟨"reviews", "author"⟩⟩,
   ⟨.inner, ⟨"posts", "id"⟩, ⟨"reviews", "post"⟩⟩]

/-- A join of two tables that are both there, with the later one as its child. -/
theorem wellScoped_reviewed :
    Connected (single "authors") reviewed ∧ (ofJoins "authors" reviewed).WellScoped := by
  have hconnected : Connected (single "authors") reviewed := by decide
  exact ⟨hconnected, (wellScoped_ofJoins_iff hconnected).mpr (by decide)⟩

end Tabula.Query.JoinGraph
