import Mathlib.Data.List.Perm.Basic
import Phrasebook.Proofs.Catalog.Compile
import Phrasebook.Proofs.Language.Permutation

/-!
# Proofs — Catalog — Permutation

The order of the configured languages decides nothing but the order of what is generated.  However
the languages are configured, the base language is compiled first (`exists_cons`), and the others
see nothing but what it has published: they can be compiled one by one (`assemblies_eq_ok_iff`), and
so in any order (`assemblies_perm`).  Hence a project compiles with its languages in one order just
if it does in another, with the same files and reports (`compile_perm`).
-/

namespace Phrasebook

namespace Generator

/-- The generator with other configured languages. -/
def withLanguages (g : Generator) (entries : List LanguageEntry) : Generator :=
  { g with settings := { g.settings with languages := entries } }

/-- Which languages are configured has no part in how some of them are compiled. -/
theorem assemblies_withLanguages (g : Generator) (entries : List LanguageEntry) (limit : Nat)
    (base : Option BaseCatalog) (ls : List Language) :
    (g.withLanguages entries).assemblies limit base ls = g.assemblies limit base ls := by
  induction ls generalizing base with
  | nil => rfl
  | cons l ls ih =>
      simp only [assemblies, ih]
      rfl

variable {g : Generator} {oracle : (r : Request) → r.Answer} {limit : Nat}

/-- **Languages in another order** give the same assemblies. -/
theorem assemblies_perm {first : Language} {rest rest' : List Language} {as : List Assembly}
    (hfirst : first.parent = none) (hrest : ∀ l ∈ rest, l.parent ≠ none) (hperm : rest'.Perm rest)
    (h : (g.assemblies limit none (first :: rest)).eval oracle = .ok as) :
    ∃ as', (g.assemblies limit none (first :: rest')).eval oracle = .ok as' ∧ as'.Perm as := by
  obtain ⟨a, base, others, rfl, ha, hpublished, hothers⟩ :=
    (assemblies_cons_eq_ok_iff hfirst hrest).mp h
  obtain ⟨others', hothers', hperm'⟩ := List.perm_comp_forall₂ hperm hothers
  have hrest' : ∀ l ∈ rest', l.parent ≠ none := fun l hl => hrest l (hperm.mem_iff.mp hl)
  exact ⟨a :: others', (assemblies_cons_eq_ok_iff hfirst hrest').mpr
    ⟨a, base, others', rfl, ha, hpublished, hothers'⟩, hperm'.cons a⟩

/-- The base language comes first in every order. -/
theorem first_eq_of_perm {first first' : Language} {rest rest' : List Language}
    (hrest : ∀ l ∈ rest, l.parent ≠ none) (hfirst' : first'.parent = none)
    (hperm : (first' :: rest').Perm (first :: rest)) : first' = first ∧ rest'.Perm rest := by
  obtain rfl : first' = first := by
    rcases List.mem_cons.mp (hperm.mem_iff.mp List.mem_cons_self) with heq | hmem
    · exact heq
    · exact absurd hfirst' (hrest first' hmem)
  exact ⟨rfl, hperm.cons_inv⟩

/-- A project that compiles does so with its languages in another order. -/
theorem compile_of_perm {entries : List LanguageEntry} {catalog : Catalog}
    (hentries : entries.Perm g.settings.languages)
    (h : (g.compile limit).eval oracle = .ok catalog) :
    ∃ catalog', ((g.withLanguages entries).compile limit).eval oracle = .ok catalog' ∧
      catalog'.files.Perm catalog.files ∧ catalog'.languages.Perm catalog.languages := by
  obtain ⟨set, as, hset, has, rfl⟩ := compile_eq_ok_iff.mp h
  obtain ⟨set', hset', hsets⟩ := LanguageSet.ofEntries?_perm hentries.symm hset
  obtain ⟨first, rest, hcons, -, hfirst, hrest⟩ :=
    (LanguageSet.ordered_of_ofEntries? hset).exists_cons
  obtain ⟨first', rest', hcons', -, hfirst', -⟩ :=
    (LanguageSet.ordered_of_ofEntries? hset').exists_cons
  rw [hcons, hcons'] at hsets
  obtain ⟨rfl, hothers⟩ := first_eq_of_perm hrest hfirst' hsets.symm
  rw [hcons] at has
  obtain ⟨as', has', hperm⟩ := assemblies_perm hfirst hrest hothers has
  refine ⟨_, compile_eq_ok_iff.mpr ⟨set', as', hset', ?_, rfl⟩, hperm.flatMap_right g.files,
    hperm.map report⟩
  rw [hcons', assemblies_withLanguages]
  exact has'

/-- **The order in which languages are configured decides nothing.**  With its languages in another
order a project compiles or does not as before, and has the same files and the same reports. -/
theorem compile_perm {σ κ : Type} (S : Storage σ κ) (s : σ) (limit : Nat) {g : Generator}
    {entries : List LanguageEntry} (hentries : entries.Perm g.settings.languages) :
    ((∃ catalog, (S.run ((g.withLanguages entries).compile limit).run s).value = .ok catalog) ↔
      ∃ catalog, (S.run (g.compile limit).run s).value = .ok catalog) ∧
    ∀ catalog catalog', (S.run (g.compile limit).run s).value = .ok catalog →
      (S.run ((g.withLanguages entries).compile limit).run s).value = .ok catalog' →
      catalog'.files.Perm catalog.files ∧ catalog'.languages.Perm catalog.languages := by
  rw [(S.run_of_reads (g.reads_compile limit) s).2,
    (S.run_of_reads ((g.withLanguages entries).reads_compile limit) s).2]
  refine ⟨⟨?_, ?_⟩, ?_⟩
  · rintro ⟨catalog', hcatalog'⟩
    -- the languages as they were are a permutation of the others
    obtain ⟨catalog, hcatalog, -⟩ := compile_of_perm (g := g.withLanguages entries) hentries.symm
      hcatalog'
    exact ⟨catalog, hcatalog⟩
  · rintro ⟨catalog, hcatalog⟩
    obtain ⟨catalog', hcatalog', -⟩ := compile_of_perm hentries hcatalog
    exact ⟨catalog', hcatalog'⟩
  · intro catalog catalog' hcatalog hcatalog'
    obtain ⟨found, hfound, hfiles, hlanguages⟩ := compile_of_perm hentries hcatalog
    obtain rfl := Except.ok.inj (hfound.symm.trans hcatalog')
    exact ⟨hfiles, hlanguages⟩

end Generator

/-- The small project compiles with its base language configured first as well, and to the same
files. -/
theorem Generator.sample_compile_perm :
    ∃ catalog catalog', (Memory.storage.run (Sample.generator.compile 3).run Sample.memory).value =
        .ok catalog ∧
      (Memory.storage.run ((Sample.generator.withLanguages
        Sample.settings.languages.reverse).compile 3).run Sample.memory).value = .ok catalog' ∧
      catalog'.files.Perm catalog.files := by
  obtain ⟨catalog, hcatalog⟩ := Sample.exists_catalog
  obtain ⟨hcompiles, hsame⟩ := compile_perm Memory.storage Sample.memory 3
    (List.reverse_perm Sample.generator.settings.languages)
  obtain ⟨catalog', hcatalog'⟩ := hcompiles.mpr ⟨catalog, hcatalog⟩
  exact ⟨catalog, catalog', hcatalog, hcatalog', (hsame catalog catalog' hcatalog hcatalog').1⟩

end Phrasebook
