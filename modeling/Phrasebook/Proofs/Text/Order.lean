import Phrasebook.Text.Order

/-!
# Proofs — Text — Order

Sorting texts keeps them all (`perm_sorted`) and puts them in order (`pairwise_sorted`), which is
strict if no text is there twice.
-/

namespace Phrasebook

theorem perm_insertSorted (name : String) (names : List String) :
    (insertSorted name names).Perm (name :: names) := by
  induction names with
  | nil => exact .refl _
  | cons n ns ih =>
      rw [insertSorted]
      split
      · exact .refl _
      · exact (ih.cons n).trans (.swap name n ns)

theorem perm_sorted (names : List String) : (sorted names).Perm names := by
  induction names with
  | nil => exact .refl _
  | cons n ns ih => exact (perm_insertSorted n (sorted ns)).trans (ih.cons n)

theorem pairwise_insertSorted {name : String} {names : List String}
    (h : names.Pairwise (· ≤ ·)) : (insertSorted name names).Pairwise (· ≤ ·) := by
  induction names with
  | nil => exact List.pairwise_singleton _ _
  | cons n ns ih =>
      obtain ⟨hfirst, hrest⟩ := List.pairwise_cons.mp h
      rw [insertSorted]
      split
      · next hle =>
          refine List.pairwise_cons.mpr ⟨?_, h⟩
          intro m hm
          rcases List.mem_cons.mp hm with rfl | hm
          · exact hle
          · exact String.le_trans hle (hfirst m hm)
      · next hle =>
          have hn : n ≤ name := (String.le_total n name).resolve_right hle
          refine List.pairwise_cons.mpr ⟨?_, ih hrest⟩
          intro m hm
          rcases List.mem_cons.mp ((perm_insertSorted name ns).mem_iff.mp hm) with rfl | hm
          · exact hn
          · exact hfirst m hm

theorem pairwise_sorted (names : List String) : (sorted names).Pairwise (· ≤ ·) := by
  induction names with
  | nil => exact .nil
  | cons n ns ih => exact pairwise_insertSorted ih

/-- Names of which no two are the same are in strict order. -/
theorem pairwise_lt_sorted {names : List String} (h : names.Nodup) :
    (sorted names).Pairwise (· < ·) := by
  have hne : (sorted names).Nodup := (perm_sorted names).nodup_iff.mpr h
  refine ((pairwise_sorted names).and hne).imp ?_
  rintro a b ⟨hle, hdistinct⟩
  refine Decidable.not_not.mp fun hlt => hdistinct ?_
  exact String.le_antisymm hle (String.not_lt.mp hlt)

end Phrasebook
