/-
# Migrations in the order of their priorities

Kinds that do the like have priorities on the same side of those that do something else, and sorting
puts lower priorities first.  The comparison of migrations is built from lawful ones by
`compareLex`, so that it is transitive and total (`TransCmp`), which is what the sort asks for; of
the four parts it is made of, only the first matters here.
-/
import Tabula.Migration.Basic

namespace Tabula.Migration

open Std

/-! ## 1. Kinds and their priorities -/

namespace Kind

variable {k : Kind}

theorem addsColumn_iff : k.addsColumn = true ↔ k = .addColumn ∨ k = .addUniqueColumn := by
  cases k <;> decide

theorem priority_of_addsColumn : k.addsColumn = true → k.priority = 10 := by cases k <;> decide

/-- A migration that rebuilds a table is no other one. -/
theorem rebuilds_of_addsColumn : k.addsColumn = true → k.rebuilds = false := by
  cases k <;> decide

theorem addsColumn_of_rebuilds (h : k.rebuilds = true) : k.addsColumn = false := by
  refine Bool.eq_false_iff.mpr fun hadds => ?_
  rw [rebuilds_of_addsColumn hadds] at h
  exact Bool.noConfusion h

/-- Only tables are created at the lowest priority. -/
theorem priority_pos : 0 < k.priority ↔ k ≠ .createTable := by cases k <;> decide

theorem priority_pos_of_rebuilds : k.rebuilds = true → 0 < k.priority := by cases k <;> decide

/-- Where indexes are created, nothing is rebuilt and no column is added. -/
theorem of_priority_eq_thirty : k.priority = 30 → k.rebuilds = false ∧ k.addsColumn = false := by
  cases k <;> decide

/-- All rebuilds but those for the sake of a foreign key come before columns are added. -/
theorem priority_lt_of_rebuilds : k.rebuilds = true → k ≠ .addForeignKey → k.priority < 10 := by
  cases k <;> decide

end Kind

/-! ## 2. The comparison is lawful -/

instance : TransCmp comparePairs :=
  inferInstanceAs <| TransCmp <|
    compareLex (compareOn fun p : String × String => p.1) (compareOn fun p => p.2)

/-- A lawful comparison of what is seen of things compares the things. -/
theorem transCmp_comap {α β : Type} (f : α → β) (c : β → β → Ordering) [TransCmp c] :
    TransCmp fun a b => c (f a) (f b) where
  eq_swap := OrientedCmp.eq_swap
  isLE_trans := TransCmp.isLE_trans

instance transCmp_sortNames : TransCmp fun a b : Migration =>
    comparePairs a.sortNames b.sortNames := transCmp_comap sortNames comparePairs

instance transCmp_extras : TransCmp fun a b : Migration =>
    List.compareLex comparePairs a.extras.entries b.extras.entries :=
  transCmp_comap (fun m : Migration => m.extras.entries) (List.compareLex comparePairs)

instance : TransCmp compare :=
  inferInstanceAs (TransCmp (compareLex _ (compareLex _ (compareLex _ _))))

/-! ## 3. Sorted migrations -/

theorem priority_le_of_compare {a b : Migration} (h : (compare a b).isLE) :
    a.kind.priority ≤ b.kind.priority := by
  have hle : (Ord.compare a.kind.priority b.kind.priority).isLE := by
    simp only [compare, compareLex, compareOn] at h
    cases hp : Ord.compare a.kind.priority b.kind.priority with
    | gt => simp [hp] at h
    | lt => rfl
    | eq => rfl
  exact Nat.isLE_compare.mp hle

theorem sort_perm (ms : List Migration) : (sort ms).Perm ms := List.mergeSort_perm ms _

theorem isLE_compare_trans (a b c : Migration) (hab : (compare a b).isLE)
    (hbc : (compare b c).isLE) : (compare a c).isLE := TransCmp.isLE_trans hab hbc

theorem isLE_compare_total (a b : Migration) :
    ((compare a b).isLE || (compare b a).isLE) = true := by
  have hswap : compare b a = (compare a b).swap := OrientedCmp.eq_swap
  rw [hswap]
  cases compare a b <;> rfl

theorem pairwise_sort (ms : List Migration) :
    (sort ms).Pairwise fun a b => (compare a b).isLE :=
  List.pairwise_mergeSort isLE_compare_trans isLE_compare_total ms

theorem sort_eq_self {ms : List Migration} (h : ms.Pairwise fun a b => (compare a b).isLE) :
    sort ms = ms := List.mergeSort_of_pairwise h

/-- Lower priorities come first. -/
def Ascending (ms : List Migration) : Prop :=
  ms.Pairwise fun a b => a.kind.priority ≤ b.kind.priority

theorem Ascending.tail {m : Migration} {ms : List Migration} (h : Ascending (m :: ms)) :
    Ascending ms := List.Pairwise.of_cons h

theorem Ascending.le {m m' : Migration} {ms : List Migration} (h : Ascending (m :: ms))
    (hm : m' ∈ m :: ms) : m.kind.priority ≤ m'.kind.priority := by
  rcases List.mem_cons.mp hm with rfl | hm
  · exact Nat.le_refl _
  · exact List.rel_of_pairwise_cons h hm

theorem Ascending.of_append {before after : List Migration} (h : Ascending (before ++ after)) :
    Ascending after := (List.pairwise_append.mp h).2.1

theorem Ascending.le_of_append {m m' : Migration} {before after : List Migration}
    (h : Ascending (before ++ m :: after)) (hm : m' ∈ before) :
    m'.kind.priority ≤ m.kind.priority :=
  (List.pairwise_append.mp h).2.2 m' hm m List.mem_cons_self

/-- **Sorting puts lower priorities first.** -/
theorem ascending_sort (ms : List Migration) : Ascending (sort ms) :=
  (pairwise_sort ms).imp priority_le_of_compare

end Tabula.Migration
