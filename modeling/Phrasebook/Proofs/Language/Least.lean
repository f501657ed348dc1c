import Phrasebook.Proofs.Language.Permutation

/-!
# Proofs — Language — Least

Among the orders that put each language behind the one that it extends, the one that is chosen is
the least.  Orders are compared by the places that their languages have in the configuration,
language by language.  What is put next is the first of the waiting languages that is ready, and
any other order must start with one that is ready as well: with the same language, so that the rest
decides, or with one that is configured behind it (`place_least`).
-/

namespace Phrasebook

namespace Language

/-- Languages stay where they have been placed. -/
theorem prefix_place (placed pending : List Language) : placed <+: (place placed pending).1 := by
  fun_induction place placed pending with
  | case1 placed pending hnone => exact List.prefix_refl placed
  | case2 placed pending l rest htake hlength ih => exact (List.prefix_append placed [l]).trans ih

/-- **The order in which languages are placed is the least**, by any numbers that grow along the
waiting languages, among those that put each language behind the one that it extends. -/
theorem place_least {number : Language → Nat} {placed pending tail order : List Language}
    (hnumber : pending.Pairwise fun l m => number l < number m)
    (hplace : place placed pending = (placed ++ tail, [])) (hperm : order.Perm pending)
    (horder : ParentsFirst placed order) :
    order = tail ∨ List.Lex (· < ·) (tail.map number) (order.map number) := by
  fun_induction place placed pending generalizing order tail with
  | case1 placed pending hnone =>
      obtain ⟨htail, rfl⟩ := Prod.mk.inj hplace
      exact .inl (hperm.eq_nil.trans (List.append_right_eq_self.mp htail.symm).symm)
  | case2 placed pending l rest htake hlength ih =>
      obtain ⟨hready, before, after, rfl, rfl, hbefore⟩ := exists_split_of_takeReady? htake
      -- `l` has its place now, so it is the first of those that are placed from here on
      obtain ⟨tail, rfl⟩ : ∃ rest, tail = l :: rest := by
        have hprefix := prefix_place (placed ++ [l]) (before ++ after)
        rw [hplace] at hprefix
        obtain ⟨rest, hrest⟩ := (List.prefix_append_right_inj placed).mp hprefix
        exact ⟨rest, hrest.symm⟩
      cases order with
      | nil => exact absurd hperm.symm.eq_nil (by simp)
      | cons k ks =>
          have hk : k ∈ before ++ l :: after := hperm.mem_iff.mp List.mem_cons_self
          rcases List.mem_append.mp hk with hk | hk
          · cases horder.1.symm.trans (hbefore k hk)
          rcases List.mem_cons.mp hk with rfl | hk
          · -- both start with the same language
            have hrest : ks.Perm (before ++ after) := (hperm.trans List.perm_middle).cons_inv
            have hnumber' := hnumber.sublist
              ((List.sublist_cons_self k after).append_left before)
            rcases ih hnumber' (by simpa using hplace) hrest horder.2 with rfl | hless
            · exact .inl rfl
            · exact .inr (.cons hless)
          · have hgrows := (List.pairwise_append.mp hnumber).2.1
            exact .inr (.rel ((List.pairwise_cons.mp hgrows).1 k hk))

/-- The places of languages in a list grow along it, if it holds no language twice. -/
theorem pairwise_idxOf {ls : List Language} (h : ls.Nodup) :
    ls.Pairwise fun l m => ls.idxOf l < ls.idxOf m := by
  rw [List.pairwise_iff_getElem]
  intro i j hi hj hij
  rwa [h.idxOf_getElem i hi, h.idxOf_getElem j hj]

end Language

end Phrasebook
