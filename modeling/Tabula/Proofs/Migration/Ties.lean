/-
# Migrations that tie

Two migrations tie if neither comes before the other, and then the sort leaves them in the order in
which they are listed.  A missing column name counts as an empty one, so that there are ties between
migrations that are not equal, and only these: one migration leaves out its column name, the other
gives an empty one, and they agree in all else (`Respells`).

* `filter_sort`: migrations that tie with a given one stay in their order.
* `ties_and_sorts_iff`: which migrations tie, and which lists are sorted in one way only.
* `tie_of_rekeyed`: two migrations that are not equal, and that tie.
-/
import Tabula.Proofs.Migration.Reordering

namespace Tabula.Migration

open Std

/-! ## 1. Spellings -/

variable {a b : Migration} {ms : List Migration}

/-- The same migration, but for its column name: one of the two leaves it out, the other gives an
empty one. -/
structure Respells (a b : Migration) : Prop where
  kind : a.kind = b.kind
  table : a.table = b.table
  extras : a.extras = b.extras
  column : a.column = none ∧ b.column = some "" ∨ a.column = some "" ∧ b.column = none

theorem Respells.ne (h : a.Respells b) : a ≠ b := by
  rintro rfl
  rcases h.column with ⟨hnone, hsome⟩ | ⟨hsome, hnone⟩
  · exact absurd (hnone.symm.trans hsome) (by simp)
  · exact absurd (hsome.symm.trans hnone) (by simp)

/-- Missing and empty names are all that spelling hides. -/
theorem getD_eq_iff {x y : Option String} :
    x.getD "" = y.getD "" ↔ x = y ∨ x = none ∧ y = some "" ∨ x = some "" ∧ y = none := by
  cases x <;> cases y <;> simp [eq_comm]

theorem spelled_eq_iff : a.spelled = b.spelled ↔ a = b ∨ a.Respells b := by
  constructor
  · intro h
    obtain ⟨hkind, htable, hcolumn, hextras⟩ := Migration.mk.inj h
    rcases getD_eq_iff.mp (Option.some.inj hcolumn) with hcolumn | hcolumn
    · left
      cases a
      cases b
      rw [Migration.mk.injEq]
      exact ⟨hkind, htable, hcolumn, hextras⟩
    · exact .inr ⟨hkind, htable, hextras, hcolumn⟩
  · rintro (rfl | ⟨hkind, htable, hextras, hcolumn⟩)
    · rfl
    · simp [spelled, hkind, htable, hextras, getD_eq_iff.mpr (.inr hcolumn)]

/-! ## 2. Sorting -/

/-- **Migrations that tie stay in the order in which they are listed.** -/
theorem filter_sort (ms : List Migration) (m : Migration) :
    (sort ms).filter (fun x => x.spelled = m.spelled) =
      ms.filter fun x => x.spelled = m.spelled := by
  have hties : (ms.filter fun x => x.spelled = m.spelled).Pairwise fun a b =>
      (compare a b).isLE := by
    refine List.pairwise_of_forall_mem_list fun a ha b hb => ?_
    have htie : a.spelled = b.spelled := by
      rw [of_decide_eq_true (List.mem_filter.mp ha).2, of_decide_eq_true (List.mem_filter.mp hb).2]
    rw [compare_eq_iff.mpr htie]
    rfl
  have hsub : (ms.filter fun x => x.spelled = m.spelled).Sublist (sort ms) :=
    List.sublist_mergeSort isLE_compare_trans isLE_compare_total hties List.filter_sublist
  have hsub' := hsub.filter fun x => x.spelled = m.spelled
  rw [List.filter_filter] at hsub'
  simp only [Bool.and_self] at hsub'
  exact (hsub'.eq_of_length (((sort_perm ms).filter _).length_eq).symm).symm

/-- So lists that begin differently, with migrations that tie, are sorted differently. -/
theorem eq_of_sort_cons_eq {ms' : List Migration} (htie : a.spelled = b.spelled)
    (h : sort (a :: ms) = sort (b :: ms')) : a = b := by
  have hfilter := congrArg (List.filter fun x => x.spelled = b.spelled) h
  rw [filter_sort, filter_sort, List.filter_cons_of_pos (by simpa using htie),
    List.filter_cons_of_pos (by simp)] at hfilter
  exact (List.cons.inj hfilter).1

/-- Without such a pair, what is sorted up to spelling is sorted. -/
theorem eq_of_map_spelled_eq {ms' : List Migration}
    (h : ∀ a ∈ ms, ∀ b ∈ ms', ¬a.Respells b) (heq : ms.map spelled = ms'.map spelled) :
    ms = ms' := by
  induction ms generalizing ms' with
  | nil => exact (List.map_eq_nil_iff.mp heq.symm).symm
  | cons a ms ih =>
    obtain ⟨b, ms', rfl⟩ : ∃ b bs, ms' = b :: bs := by
      cases ms' with
      | nil => exact absurd heq (by simp)
      | cons b bs => exact ⟨b, bs, rfl⟩
    obtain ⟨hhead, htail⟩ := List.cons.inj heq
    have hab : a = b :=
      (spelled_eq_iff.mp hhead).resolve_right (h a List.mem_cons_self b List.mem_cons_self)
    rw [hab, ih (fun x hx y hy => h x (List.mem_cons_of_mem _ hx) y (List.mem_cons_of_mem _ hy))
      htail]

/-- **Which migrations tie**, and so which lists are sorted in the same way in whatever order they
are listed: those without two migrations that differ in the spelling of a missing column name. -/
theorem ties_and_sorts_iff (a b : Migration) (ms : List Migration) :
    (compare a b = .eq ↔ a = b ∨ a.Respells b) ∧
      ((∀ ms', ms.Perm ms' → sort ms' = sort ms) ↔ ∀ x ∈ ms, ∀ y ∈ ms, ¬x.Respells y) := by
  refine ⟨compare_eq_iff.trans spelled_eq_iff, fun h x hx y hy hxy => ?_, fun h ms' hperm => ?_⟩
  · -- Each of the two can be listed first.
    have hsort : sort (x :: ms.erase x) = sort (y :: ms.erase y) :=
      (h _ (List.perm_cons_erase hx)).trans (h _ (List.perm_cons_erase hy)).symm
    exact hxy.ne (eq_of_sort_cons_eq (spelled_eq_iff.mpr (.inr hxy)) hsort)
  · refine eq_of_map_spelled_eq (fun x hx y hy => h x ?_ y ?_) (map_spelled_sort hperm.symm)
    · exact hperm.mem_iff.mpr ((sort_perm ms').mem_iff.mp hx)
    · exact (sort_perm ms).mem_iff.mp hy

/-! ## 3. A tie -/

/-- **Two migrations that are not equal and tie**, so that each order of them is a sorted one. -/
theorem tie_of_rekeyed :
    compare (.ofTable .updatePrimaryKey "teams") (.ofColumn .updatePrimaryKey "teams" "") = .eq ∧
      ofTable .updatePrimaryKey "teams" ≠ .ofColumn .updatePrimaryKey "teams" "" ∧
      sort [.ofTable .updatePrimaryKey "teams", .ofColumn .updatePrimaryKey "teams" ""] ≠
        sort [.ofColumn .updatePrimaryKey "teams" "", .ofTable .updatePrimaryKey "teams"] := by
  refine ⟨by decide, by decide, ?_⟩
  rw [sort_eq_self (by decide), sort_eq_self (by decide)]
  decide

end Tabula.Migration
