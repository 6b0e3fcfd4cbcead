/-
# The JOINs of a FROM text

Joins may come in any order, so that the edges with one partner need not stand together in the
graph.  In the text they do: each partner has one JOIN, at the place of its first edge, and no edge
is lost on the way.

Grouping the edges puts one after another to the group of its partner.  Seen from the first edge it
is a recursion: the edges with the same partner make the first group, and the others are grouped
without them (`groupEdges_cons`).  That is how `List.eraseDups` goes about the partners, too.

* `map_groupEdges`: the groups are the partners, each with all of its edges.
* `text_eq`: so the text can be told from the edges.
* `listsTables_and_text_ofJoins`: the tables and the text of a graph that was made from joins.
-/
import Mathlib.Data.List.Nodup
import Tabula.Query.Join

namespace Tabula.Query.JoinGraph

/-! ## 1. Partners and their edges -/

/-- The tables that edges bring in, in the order of their first edges. -/
def partners (es : List JoinEdge) : List String := (es.map fun e => e.partner.table).eraseDups

/-- The edges that bring in a table, in their order.  An edge that was added twice is there
twice. -/
def edgesTo (es : List JoinEdge) (table : String) : List JoinEdge :=
  es.filter fun e => e.partner.table = table

/-- The edges that bring in other tables. -/
def edgesApart (es : List JoinEdge) (table : String) : List JoinEdge :=
  es.filter fun e => e.partner.table ≠ table

/-- The JOIN of a table, given the edges that bring it in.  The first of them decides how it is
joined, and unless that is by nature, the conditions of all of them are listed. -/
def joinText (table : String) : List JoinEdge → String
  | [] => ""
  | e :: es =>
    " " ++ e.kind.text ++ " " ++ table ++
      if e.kind = .natural then ""
      else " ON " ++ String.intercalate " AND " ((e :: es).map JoinEdge.condition)

variable {g : JoinGraph} {e : JoinEdge} {es : List JoinEdge} {p : Group} {ps : List Group}
  {table other : String}

theorem mem_partners : table ∈ partners es ↔ ∃ e ∈ es, e.partner.table = table := by
  simp [partners]

theorem mem_edgesTo : e ∈ edgesTo es table ↔ e ∈ es ∧ e.partner.table = table := by
  simp [edgesTo]

theorem mem_edgesApart : e ∈ edgesApart es table ↔ e ∈ es ∧ e.partner.table ≠ table := by
  simp [edgesApart]

theorem length_edgesApart_le : (edgesApart es table).length ≤ es.length :=
  List.length_filter_le _ es

theorem map_partner_edgesApart : (edgesApart es table).map (fun e => e.partner.table) =
    (es.map fun e => e.partner.table).filter fun t => !t == table := by
  rw [edgesApart, List.filter_map]
  refine congrArg _ (List.filter_congr ?_)
  intro e _
  by_cases he : e.partner.table = table <;> simp [he]

theorem partners_cons :
    partners (e :: es) = e.partner.table :: partners (edgesApart es e.partner.table) := by
  rw [partners, List.map_cons, List.eraseDups_cons, partners, map_partner_edgesApart]

theorem nodup_partners (es : List JoinEdge) : (partners es).Nodup := by
  match es with
  | [] => exact List.nodup_nil
  | e :: es =>
    rw [partners_cons, List.nodup_cons, mem_partners]
    refine ⟨?_, nodup_partners _⟩
    rintro ⟨x, hx, heq⟩
    exact (mem_edgesApart.mp hx).2 heq
termination_by es.length
decreasing_by exact Nat.lt_succ_of_le length_edgesApart_le

/-- Where some edges are set apart, the others are as before. -/
theorem edgesTo_edgesApart (h : other ≠ table) :
    edgesTo (edgesApart es table) other = edgesTo es other := by
  rw [edgesTo, edgesApart, List.filter_filter]
  refine List.filter_congr ?_
  intro x _
  by_cases hx : x.partner.table = other
  · simp [hx, h]
  · simp [hx]

/-! ## 2. Groups -/

/-- Edges, grouped. -/
def groupEdges (es : List JoinEdge) : List Group := es.foldl insertEdge []

/-- A group in front takes the edges of its partner and lets the others pass. -/
theorem foldl_insertEdge_cons (es : List JoinEdge) (p : Group) (ps : List Group) :
    es.foldl insertEdge (p :: ps) = ⟨p.first, p.others ++ edgesTo es p.partner⟩ ::
      (edgesApart es p.partner).foldl insertEdge ps := by
  induction es generalizing p ps with
  | nil => simp [edgesTo, edgesApart]
  | cons e es ih =>
    rw [List.foldl_cons, insertEdge]
    by_cases he : e.partner.table = p.partner
    · have hpartner : Group.partner ⟨p.first, p.others ++ [e]⟩ = p.partner := rfl
      rw [if_pos he.symm, ih, hpartner]
      simp [edgesTo, edgesApart, he]
    · rw [if_neg (Ne.symm he), ih]
      simp [edgesTo, edgesApart, he]

/-- **The first edge makes a group with the others of its partner.** -/
theorem groupEdges_cons : groupEdges (e :: es) =
    ⟨e, edgesTo es e.partner.table⟩ :: groupEdges (edgesApart es e.partner.table) := by
  rw [groupEdges, List.foldl_cons, insertEdge, foldl_insertEdge_cons]
  rfl

/-- **The groups are the partners, each with all of its edges.** -/
theorem map_groupEdges (es : List JoinEdge) :
    (groupEdges es).map (fun p => (p.partner, p.first :: p.others)) =
      (partners es).map fun t => (t, edgesTo es t) := by
  match es with
  | [] => rfl
  | e :: es =>
    have hfirst : edgesTo (e :: es) e.partner.table = e :: edgesTo es e.partner.table := by
      simp [edgesTo]
    rw [groupEdges_cons, partners_cons, List.map_cons, List.map_cons, hfirst, map_groupEdges]
    refine congrArg (List.cons _) (List.map_congr_left ?_)
    intro t ht
    obtain ⟨x, hx, rfl⟩ := mem_partners.mp ht
    have hne : x.partner.table ≠ e.partner.table := (mem_edgesApart.mp hx).2
    have hskip : edgesTo (e :: es) x.partner.table = edgesTo es x.partner.table := by
      simp [edgesTo, hne.symm]
    rw [edgesTo_edgesApart hne, hskip]
termination_by es.length
decreasing_by exact Nat.lt_succ_of_le length_edgesApart_le

theorem map_partner_groups (g : JoinGraph) : g.groups.map Group.partner = partners g.edges := by
  have h := congrArg (List.map Prod.fst) (map_groupEdges g.edges)
  simpa [groups, groupEdges, Function.comp_def] using h

/-- The edges of a group are all those of the graph with its partner. -/
theorem edges_of_mem_groups (hp : p ∈ g.groups) :
    p.first :: p.others = edgesTo g.edges p.partner := by
  have hmem : (p.partner, p.first :: p.others) ∈
      (partners g.edges).map fun t => (t, edgesTo g.edges t) := by
    rw [← map_groupEdges]
    exact List.mem_map_of_mem hp
  obtain ⟨t, -, heq⟩ := List.mem_map.mp hmem
  obtain ⟨rfl, hedges⟩ := Prod.mk.inj heq
  exact hedges.symm

/-- **Groups are made of the edges of the graph.** -/
theorem mem_edges_of_mem_groups (hp : p ∈ g.groups) (he : e ∈ p.first :: p.others) :
    e ∈ g.edges := by
  rw [edges_of_mem_groups hp] at he
  exact (mem_edgesTo.mp he).1

/-- The edges of a group bring in one table. -/
theorem partner_eq_of_mem_groups (hp : p ∈ g.groups) (he : e ∈ p.first :: p.others) :
    e.partner.table = p.partner := by
  rw [edges_of_mem_groups hp] at he
  exact (mem_edgesTo.mp he).2

theorem groupText_eq (p : Group) : p.text = joinText p.partner (p.first :: p.others) := by
  rw [Group.text, joinText]
  cases p.first.kind <;> rfl

/-- **The FROM text**, from the edges of the graph. -/
theorem text_eq (g : JoinGraph) : g.text = g.base ++
    String.join ((partners g.edges).map fun t => joinText t (edgesTo g.edges t)) := by
  have hgroups : g.groups.map Group.text =
      ((groupEdges g.edges).map fun p => (p.partner, p.first :: p.others)).map
        fun q => joinText q.1 q.2 := by
    rw [List.map_map]
    exact List.map_congr_left fun p _ => groupText_eq p
  rw [text, hgroups, map_groupEdges, List.map_map]
  rfl

/-! ## 3. Graphs made from joins -/

/-- A join as an edge, one way or the other. -/
structure IsEdgeOf (j : Join) (e : JoinEdge) : Prop where
  kind : e.kind = j.kind
  sides : e.partner = j.child ∧ e.anchor = j.parent ∨ e.partner = j.parent ∧ e.anchor = j.child

/-- **The tables of a graph**: the base table first, then what edges bring in, and none twice. -/
structure ListsTables (g : JoinGraph) : Prop where
  head : g.tables.head? = some g.base
  nodup : g.tables.Nodup
  mem_iff : ∀ t, t ∈ g.tables ↔ t = g.base ∨ ∃ e ∈ g.edges, e.partner.table = t

theorem isEdgeOf_orient (g : JoinGraph) (j : Join) : IsEdgeOf j (g.orient j) := by
  unfold orient
  split
  · exact ⟨rfl, .inr ⟨rfl, rfl⟩⟩
  · exact ⟨rfl, .inl ⟨rfl, rfl⟩⟩

theorem tables_addEdge (g : JoinGraph) (e : JoinEdge) : (g.addEdge e).tables =
    if e.partner.table ∈ g.tables then g.tables else g.tables ++ [e.partner.table] := by
  simp [addEdge, contains]

theorem listsTables_single (base : String) : (single base).ListsTables := by
  refine ⟨rfl, List.nodup_singleton base, ?_⟩
  intro t
  simp [single]

/-- **A table is listed when its first edge is added.** -/
theorem ListsTables.addEdge (h : g.ListsTables) (e : JoinEdge) : (g.addEdge e).ListsTables := by
  have hedges : ∀ t, (∃ x ∈ g.edges ++ [e], x.partner.table = t) ↔
      (∃ x ∈ g.edges, x.partner.table = t) ∨ t = e.partner.table := by
    intro t
    simp [or_and_right, exists_or, eq_comm]
  by_cases hmem : e.partner.table ∈ g.tables
  · have htables : (g.addEdge e).tables = g.tables := by rw [tables_addEdge, if_pos hmem]
    refine ⟨htables ▸ h.head, htables ▸ h.nodup, ?_⟩
    intro t
    have hold : t = e.partner.table → t ∈ g.tables := fun ht => ht ▸ hmem
    rw [htables, JoinGraph.addEdge, hedges, ← or_assoc, ← h.mem_iff, or_iff_left_of_imp hold]
  · have htables : (g.addEdge e).tables = g.tables ++ [e.partner.table] := by
      rw [tables_addEdge, if_neg hmem]
    refine ⟨?_, ?_, ?_⟩
    · rw [htables, List.head?_append, h.head]
      rfl
    · rw [htables]
      exact h.nodup.append (List.nodup_singleton _) (List.disjoint_singleton.mpr hmem)
    · intro t
      rw [htables, List.mem_append, List.mem_singleton, h.mem_iff, JoinGraph.addEdge, hedges,
        or_assoc]

/-- Joins that are added bring an edge each, in their order. -/
theorem ListsTables.foldl_add (h : g.ListsTables) (joins : List Join) :
    (joins.foldl add g).base = g.base ∧
      (∃ added, (joins.foldl add g).edges = g.edges ++ added ∧
        List.Forall₂ IsEdgeOf joins added) ∧
      (joins.foldl add g).ListsTables := by
  induction joins generalizing g with
  | nil => exact ⟨rfl, ⟨[], by simp, .nil⟩, h⟩
  | cons j joins ih =>
    obtain ⟨hbase, ⟨added, hedges, hadded⟩, hlists⟩ := ih (h.addEdge (g.orient j))
    refine ⟨hbase, ⟨g.orient j :: added, ?_, .cons (isEdgeOf_orient g j) hadded⟩, hlists⟩
    rw [List.foldl_cons, ← List.singleton_append, ← List.append_assoc]
    exact hedges

/-- **The graph that joins make, and its text.**  There is an edge for each join, in their order.
The graph lists the base table and then the partners, and the text has one JOIN for each partner in
the order of first edges, of the kind of the first edge and with the conditions of all edges. -/
theorem listsTables_and_text_ofJoins (base : String) (joins : List Join) :
    (ofJoins base joins).base = base ∧
      List.Forall₂ IsEdgeOf joins (ofJoins base joins).edges ∧
      (ofJoins base joins).ListsTables ∧
      (ofJoins base joins).text = base ++
        String.join ((partners (ofJoins base joins).edges).map fun t =>
          joinText t (edgesTo (ofJoins base joins).edges t)) := by
  obtain ⟨hbase, ⟨added, hedges, hadded⟩, hlists⟩ := (listsTables_single base).foldl_add joins
  have hself : (ofJoins base joins).base = base := hbase
  have htext := text_eq (ofJoins base joins)
  rw [hself] at htext
  refine ⟨hself, ?_, hlists, htext⟩
  rw [ofJoins, hedges]
  exact hadded

/-- A table that is joined twice has one JOIN, at the place of the first and of its kind. -/
example : (ofJoins "users"
    [⟨.inner, ⟨"users", "id"⟩, ⟨"orders", "buyer"⟩⟩,
      ⟨.left, ⟨"users", "id"⟩, ⟨"reviews", "author"⟩⟩,
      ⟨.left, ⟨"users", "id"⟩, ⟨"orders", "seller"⟩⟩]).text =
    "users INNER JOIN orders ON orders.buyer=users.id AND orders.seller=users.id" ++
      " LEFT JOIN reviews ON reviews.author=users.id" := by decide

end Tabula.Query.JoinGraph
