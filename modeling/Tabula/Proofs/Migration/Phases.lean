/-
# The phases of a plan

A plan has phases: tables are created, then rebuilt, then they get columns, then indexes, and what
is no longer wanted is dropped last.  Nothing in the plan itself sees to that.  It is the comparison
by which migrations are sorted that does, for whatever the migrations are called and whatever else
they hold, since priorities are compared before all names.

* `IsLawful`: what a comparison must be like so that there is such a thing as a sorted list.
* `Kind.ComesBefore`: the phases, as a relation between kinds.
* `Ascending.inPhases`: in a list whose priorities ascend, places agree with phases.
-/
import Tabula.Proofs.Migration.Priority

namespace Tabula.Migration

open Std

/-! ## 1. Lawful comparisons -/

/-- **A comparison by which lists can be sorted.**  It need not tell everything apart, but what it
does not tell apart stands in the same way to all else. -/
structure IsLawful {α : Type} (c : α → α → Ordering) : Prop where
  swap : ∀ x y, c x y = (c y x).swap
  trans : ∀ x y z, (c x y).isLE → (c y z).isLE → (c x z).isLE
  tie_trans : ∀ x y z, c x y = .eq → c y z = .eq → c x z = .eq
  tie_congr : ∀ x y z, c x y = .eq → c x z = c y z ∧ c z x = c z y

theorem isLawful_of_transCmp {α : Type} (c : α → α → Ordering) [TransCmp c] : IsLawful c where
  swap := by
    intro x y
    exact OrientedCmp.eq_swap
  trans := by
    intro x y z hxy hyz
    exact TransCmp.isLE_trans hxy hyz
  tie_trans := by
    intro x y z hxy hyz
    rw [TransCmp.congr_left hxy, hyz]
  tie_congr := by
    intro x y z hxy
    exact ⟨TransCmp.congr_left hxy, TransCmp.congr_right hxy⟩

/-! ## 2. Phases -/

namespace Kind

/-- Whether an index is created, and nothing else is done. -/
def addsIndex : Kind → Bool
  | addUniqueIndex => true
  | addIndex => true
  | makeColumnUnique => true
  | _ => false

/-- **Which kinds come before which.** -/
inductive ComesBefore : Kind → Kind → Prop
  | creation {k : Kind} (other : k ≠ createTable) : ComesBefore createTable k
  /-- A new foreign key is not among these rebuilds: it may need a column that is added first. -/
  | rebuild {j k : Kind} (rebuilds : j.rebuilds = true) (early : j.priority = 5 ∨ j.priority = 6)
      (adds : k.addsColumn = true ∨ k.addsIndex = true) : ComesBefore j k
  | column {j k : Kind} (adds : j.addsColumn = true) (index : k.addsIndex = true) :
      ComesBefore j k
  | removal {k : Kind} (other : k ≠ dropTable) : ComesBefore k dropTable

variable {j k : Kind}

theorem priority_of_addsIndex : k.addsIndex = true → k.priority = 30 := by cases k <;> decide

/-- Tables are only dropped at the highest priority. -/
theorem priority_lt_dropTable : k ≠ dropTable → k.priority < dropTable.priority := by
  cases k <;> decide

/-- **What comes before has a lower priority.** -/
theorem ComesBefore.priority_lt (h : ComesBefore j k) : j.priority < k.priority := by
  cases h with
  | creation other => exact priority_pos.mpr other
  | rebuild _ early adds =>
    have hlate : 10 ≤ k.priority := by
      rcases adds with hcolumn | hindex
      · exact Nat.le_of_eq (priority_of_addsColumn hcolumn).symm
      · rw [priority_of_addsIndex hindex]
        decide
    omega
  | column adds index =>
    rw [priority_of_addsColumn adds, priority_of_addsIndex index]
    decide
  | removal other => exact priority_lt_dropTable other

end Kind

/-! ## 3. Sorted lists -/

variable {ms : List Migration}

/-- No migration of the list is lower than one before it. -/
def Sorted (ms : List Migration) : Prop := ms.Pairwise fun a b => (compare a b).isLE

instance (ms : List Migration) : Decidable (Sorted ms) :=
  inferInstanceAs (Decidable (List.Pairwise _ _))

/-- A list whose places agree with the phases. -/
def InPhases (ms : List Migration) : Prop :=
  ∀ i j (hi : i < ms.length) (hj : j < ms.length),
    (ms[i]).kind.ComesBefore (ms[j]).kind → i < j

theorem Sorted.ascending (h : Sorted ms) : Ascending ms := h.imp priority_le_of_compare

theorem Ascending.getElem_le (h : Ascending ms) {i j : Nat} (hij : i ≤ j) (hj : j < ms.length) :
    (ms[i]).kind.priority ≤ (ms[j]).kind.priority := by
  rcases Nat.lt_or_eq_of_le hij with hlt | rfl
  · exact List.pairwise_iff_getElem.mp h i j (Nat.lt_trans hlt hj) hj hlt
  · exact Nat.le_refl _

/-- **Places agree with the phases** where lower priorities come first. -/
theorem Ascending.inPhases (h : Ascending ms) : InPhases ms := by
  intro i j hi hj hbefore
  refine Nat.lt_of_not_le ?_
  intro hji
  exact Nat.not_le.mpr hbefore.priority_lt (h.getElem_le hji hi)

/-- **Migrations can be sorted, and are then in phases.** -/
theorem isLawful_compare_and_inPhases :
    IsLawful compare ∧ (∀ ms, Sorted (sort ms) ∧ (sort ms).Perm ms) ∧
      ∀ ms, Sorted ms → InPhases ms := by
  refine ⟨isLawful_of_transCmp compare, ?_, ?_⟩
  · intro ms
    exact ⟨pairwise_sort ms, sort_perm ms⟩
  · intro ms h
    exact h.ascending.inPhases

/-- Changes of a library, one of each phase, with names that would sort them otherwise. -/
def libraryChanges : List Migration :=
  [ofTable .createTable "visits", ofTable .updatePrimaryKey "loans",
   ofColumn .changeDefault "books" "year", ofColumn .addUniqueColumn "books" "isbn",
   ofColumn .addColumn "books" "title", ofColumn .addForeignKey "loans" "book",
   ofColumn .addIndex "books" "author", ofColumn .makeColumnUnique "books" "code",
   ofTable .copyTable "authors", ofTable .dropTable "archive"]

theorem inPhases_libraryChanges : Sorted libraryChanges ∧ InPhases libraryChanges := by
  have h : Sorted libraryChanges := by decide
  exact ⟨h, isLawful_compare_and_inPhases.2.2 libraryChanges h⟩

end Tabula.Migration
