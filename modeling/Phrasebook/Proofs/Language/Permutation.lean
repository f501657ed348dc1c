import Phrasebook.Proofs.Language.Order

/-!
# Proofs — Language — Permutation

Whether languages fit together does not depend on the order in which they are configured.  Two
entries that follow each other can change places, as each of them is checked for its shortcode and
its name against all that are before it (`ofEntries?_perm`).  Placing languages ends only when none
of those that are left is ready; if some order puts each language behind the one that it extends,
then none is left, in whatever order they wait (`place_complete`).
-/

namespace Phrasebook

namespace Language

/-! ### Checked entries -/

variable {base : String} {before before' : List Language} {entry : LanguageEntry} {l m : Language}

/-- What is before an entry may be in any order. -/
theorem ofEntry?_of_subset (hsubset : before' ⊆ before) (h : ofEntry? base before entry = .ok l) :
    ofEntry? base before' entry = .ok l := by
  obtain ⟨hnamed, hnew, hparent⟩ := ofEntry?_eq_ok_iff.mp h
  exact ofEntry?_eq_ok_iff.mpr ⟨hnamed, fun m hm => hnew m (hsubset hm), hparent⟩

/-- An entry that passes stays new if it goes before another that has passed behind it. -/
theorem ofEntry?_swap {entry' : LanguageEntry} (h : ofEntry? base before entry = .ok l)
    (h' : ofEntry? base (before ++ [l]) entry' = .ok m) :
    ofEntry? base before entry' = .ok m ∧ ofEntry? base (before ++ [m]) entry = .ok l := by
  refine ⟨ofEntry?_of_subset (List.subset_append_left _ _) h', ?_⟩
  obtain ⟨hnamed, hnew, hparent⟩ := ofEntry?_eq_ok_iff.mp h
  obtain ⟨-, hnew', -⟩ := ofEntry?_eq_ok_iff.mp h'
  refine ofEntry?_eq_ok_iff.mpr ⟨hnamed, fun k hk => ?_, hparent⟩
  rcases List.mem_append.mp hk with hk | hk
  · exact hnew k hk
  · obtain rfl := List.mem_singleton.mp hk
    obtain ⟨hshortcode, hname⟩ := hnew' l (List.mem_append_right _ (List.mem_singleton_self l))
    exact ⟨hshortcode.symm, hname.symm⟩

theorem ofEntries?_cons_eq_ok {rest : List LanguageEntry} {ls : List Language} :
    ofEntries? base before (entry :: rest) = .ok ls ↔
      ∃ l, ofEntry? base before entry = .ok l ∧ ofEntries? base (before ++ [l]) rest = .ok ls := by
  rw [ofEntries?]
  cases ofEntry? base before entry <;> simp

/-- The same entries behind the same languages in another order. -/
theorem ofEntries?_of_perm_before {entries : List LanguageEntry} {ls : List Language}
    (hbefore : before.Perm before') (h : ofEntries? base before entries = .ok ls) :
    ∃ ls', ofEntries? base before' entries = .ok ls' ∧ ls.Perm ls' := by
  induction entries generalizing before before' with
  | nil =>
      cases h
      exact ⟨before', rfl, hbefore⟩
  | cons entry entries ih =>
      obtain ⟨l, hl, hrest⟩ := ofEntries?_cons_eq_ok.mp h
      obtain ⟨ls', hls', hperm⟩ := ih (hbefore.append_right [l]) hrest
      exact ⟨ls', ofEntries?_cons_eq_ok.mpr ⟨l, ofEntry?_of_subset hbefore.symm.subset hl, hls'⟩,
        hperm⟩

/-- **Entries pass their checks in any order.** -/
theorem ofEntries?_perm {entries entries' : List LanguageEntry} {ls : List Language}
    (hentries : entries.Perm entries') (h : ofEntries? base before entries = .ok ls) :
    ∃ ls', ofEntries? base before entries' = .ok ls' ∧ ls.Perm ls' := by
  induction hentries generalizing before ls with
  | nil => exact ⟨ls, h, .refl ls⟩
  | cons entry _ ih =>
      obtain ⟨l, hl, hrest⟩ := ofEntries?_cons_eq_ok.mp h
      obtain ⟨ls', hls', hperm⟩ := ih hrest
      exact ⟨ls', ofEntries?_cons_eq_ok.mpr ⟨l, hl, hls'⟩, hperm⟩
  | swap entry' entry rest =>
      obtain ⟨l, hl, hothers⟩ := ofEntries?_cons_eq_ok.mp h
      obtain ⟨m, hm, hrest⟩ := ofEntries?_cons_eq_ok.mp hothers
      obtain ⟨hm', hl'⟩ := ofEntry?_swap hl hm
      have hbefore : (before ++ [l] ++ [m]).Perm (before ++ [m] ++ [l]) := by
        rw [List.append_assoc, List.append_assoc]
        exact (List.Perm.swap m l []).append_left before
      obtain ⟨ls', hls', hperm⟩ := ofEntries?_of_perm_before hbefore hrest
      exact ⟨ls', ofEntries?_cons_eq_ok.mpr ⟨m, hm', ofEntries?_cons_eq_ok.mpr ⟨l, hl', hls'⟩⟩,
        hperm⟩
  | trans _ _ ih ih' =>
      obtain ⟨ls', hls', hperm⟩ := ih h
      obtain ⟨ls'', hls'', hperm'⟩ := ih' hls'
      exact ⟨ls'', hls'', hperm.trans hperm'⟩

/-! ### Placing languages -/

/-- More languages in place leave a language ready. -/
theorem isReady_of_subset (hsubset : before ⊆ before') (h : l.isReady before = true) :
    l.isReady before' = true := by
  unfold isReady at h ⊢
  split at h
  · rfl
  · obtain ⟨p, hp, hshortcode⟩ := List.any_eq_true.mp h
    exact List.any_eq_true.mpr ⟨p, hsubset hp, hshortcode⟩

/-- Nothing is taken only if no language is ready. -/
theorem not_isReady_of_takeReady? {placed pending : List Language}
    (h : takeReady? placed pending = none) : ∀ l ∈ pending, l.isReady placed = false := by
  induction pending with
  | nil => nofun
  | cons p ps ih =>
      rw [takeReady?] at h
      split at h
      · cases h
      · next hready =>
          intro l hl
          rcases List.mem_cons.mp hl with rfl | hl
          · exact Bool.eq_false_iff.mpr hready
          · exact ih (Option.map_eq_none_iff.mp h) l hl

/-- No language that is left is ready. -/
theorem not_isReady_of_place (placed pending : List Language) :
    ∀ l ∈ (place placed pending).2, l.isReady (place placed pending).1 = false := by
  fun_induction place placed pending with
  | case1 placed pending hnone => exact not_isReady_of_takeReady? hnone
  | case2 placed pending l rest htake hlength ih => exact ih

/-- Along an order in which each language comes behind the one that it extends, all are ready as soon
as none of those that are left is. -/
theorem ParentsFirst.isReady {rest placed left : List Language} (h : ParentsFirst before rest)
    (hleft : ∀ l ∈ left, l.isReady placed = false) (hbefore : before ⊆ placed)
    (hrest : rest ⊆ placed ++ left) : ∀ l ∈ rest, l.isReady placed = true := by
  induction rest generalizing before with
  | nil => nofun
  | cons l rest ih =>
      have hl := isReady_of_subset hbefore h.1
      have hmem : l ∈ placed := by
        rcases List.mem_append.mp (hrest List.mem_cons_self) with hmem | hmem
        · exact hmem
        · cases hl.symm.trans (hleft l hmem)
      have hbefore' : before ++ [l] ⊆ placed :=
        List.append_subset.mpr ⟨hbefore, List.cons_subset.mpr ⟨hmem, List.nil_subset _⟩⟩
      intro k hk
      rcases List.mem_cons.mp hk with rfl | hk
      · exact hl
      · exact ih h.2 hbefore' (fun _ hm => hrest (List.mem_cons_of_mem _ hm)) k hk

/-- **No language is left if there is an order** in which each comes behind the one that it
extends. -/
theorem place_complete {ls order : List Language} (horder : ParentsFirst [] order)
    (hperm : order.Perm ls) : (place [] ls).2 = [] := by
  obtain ⟨hplaced, -⟩ := place_spec [] ls trivial
  have hleft := not_isReady_of_place [] ls
  have hready := horder.isReady hleft (List.nil_subset _)
    (List.Subset.trans hperm.subset hplaced.symm.subset)
  refine List.eq_nil_iff_forall_not_mem.mpr fun l hl => ?_
  have hmem : l ∈ order := hperm.mem_iff.mpr (hplaced.mem_iff.mp (List.mem_append_right _ hl))
  cases (hready l hmem).symm.trans (hleft l hl)

/-- There is no unknown parent if all parents are there. -/
theorem unknownParent?_eq_none_iff {all ls : List Language} :
    unknownParent? all ls = none ↔
      ∀ l ∈ ls, ∀ parent, l.parent = some parent → ∃ p ∈ all, p.shortcode = parent := by
  induction ls with
  | nil => exact ⟨fun _ => nofun, fun _ => rfl⟩
  | cons l ls ih =>
      rw [List.forall_mem_cons, ← ih, unknownParent?]
      cases l.parent with
      | none => simp
      | some parent =>
          simp only [List.any_eq_true, beq_iff_eq, Option.some.injEq, forall_eq']
          split
          · next hthere => exact ⟨fun h => ⟨hthere, h⟩, And.right⟩
          · next hmissing => exact ⟨nofun, fun h => absurd h.1 hmissing⟩

end Language

namespace LanguageSet
open Phrasebook.Language

/-- **Languages that fit together do so in any order.** -/
theorem ofEntries?_perm {base : String} {entries entries' : List LanguageEntry} {set : LanguageSet}
    (hentries : entries.Perm entries') (h : ofEntries? entries base = .ok set) :
    ∃ set', ofEntries? entries' base = .ok set' ∧ set.languages.Perm set'.languages := by
  obtain ⟨ls, hls, hbase, hparents, hplace⟩ := ofEntries?_eq_ok_iff.mp h
  obtain ⟨ls', hls', hperm⟩ := Language.ofEntries?_perm hentries hls
  obtain ⟨hplaced, hfirst⟩ := place_spec [] ls trivial
  rw [hplace, List.append_nil, List.nil_append] at hplaced
  rw [hplace] at hfirst
  -- the order in which the languages have been placed is one for the other configuration too
  have hnone := place_complete hfirst (hplaced.trans hperm)
  obtain ⟨hplaced', -⟩ := place_spec [] ls' trivial
  rw [hnone, List.append_nil, List.nil_append] at hplaced'
  refine ⟨⟨(place [] ls').1⟩, ofEntries?_eq_ok_iff.mpr ⟨ls', hls', hperm.any_eq ▸ hbase, ?_, ?_⟩,
    hplaced.trans (hperm.trans hplaced'.symm)⟩
  · refine unknownParent?_eq_none_iff.mpr fun l hl parent hparent => ?_
    obtain ⟨p, hp, hshortcode⟩ :=
      unknownParent?_eq_none_iff.mp hparents l (hperm.mem_iff.mpr hl) parent hparent
    exact ⟨p, hperm.mem_iff.mp hp, hshortcode⟩
  · exact Prod.ext rfl hnone

end LanguageSet

end Phrasebook
