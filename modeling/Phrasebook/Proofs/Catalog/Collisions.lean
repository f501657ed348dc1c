import Phrasebook.Proofs.Catalog.Effects
import Phrasebook.Proofs.Catalog.Faults
import Phrasebook.Proofs.Catalog.Taken
import Phrasebook.Proofs.Section.Glue

/-!
# Proofs — Catalog — Collisions

Sections whose names collide.  Their variables do just if their interfaces do, and no variable is
ever an interface; so where a section is refused for one of its names, this is its variable, and it
is the variable of the section that came first as well (`eq_of_identityFault?`).  So is a tree,
which is refused for the first section in it that is refused behind those before it.  Which sections
collide is known from their words (`Section.Identity.collide_iff_glued`).
-/

namespace Phrasebook

/-- **A name that is refused is a variable**, of the section and of one before it. -/
theorem eq_of_identityFault? {shortcode code name : String} {taken : List (Section.Identity × Path)}
    {id : Section.Identity} {path first second : Path}
    (h : identityFault? shortcode taken id path =
      some (.duplicateIdentifier code name first second)) :
    name = id.variableName ∧ second = path ∧
      ∃ t ∈ taken, t.2 = first ∧ name = t.1.variableName := by
  have hname : ∀ t : Section.Identity × Path, t.1.hasName id.variableName = true ↔
      t.1.variableName = id.variableName := fun t => by
    have hne := (Section.Identity.variableName_ne_interfaceName id t.1).symm
    simp [Section.Identity.hasName, hne]
  unfold identityFault? at h
  split at h
  · cases h
  · split at h
    · next found hfound =>
        cases h
        have hcollides := (hname found).mp (List.find?_some hfound :)
        exact ⟨rfl, rfl, found, List.mem_of_find?_eq_some hfound, rfl, hcollides.symm⟩
    · next hnone =>
        -- an interface that is taken belongs to a section whose variable is taken as well
        obtain ⟨found, hfound, -⟩ := Option.map_eq_some_iff.mp h
        have hfree := List.find?_eq_none.mp hnone found (List.mem_of_find?_eq_some hfound)
        have hne := Section.Identity.variableName_ne_interfaceName found.1 id
        have hinterface : found.1.interfaceName = id.interfaceName := by
          simpa [Section.Identity.hasName, hne] using List.find?_some hfound
        exact absurd ((hname found).mpr (Section.Identity.variableName_eq_iff.mpr hinterface)) hfree

/-- Two sections, one before the other, have one variable. -/
def Collide (files : List SectionFile) (name : String) (first second : Path) : Prop :=
  ∃ f g, [f, g].Sublist files ∧ f.path = first ∧ g.path = second ∧
    f.identity.variableName = name ∧ g.identity.variableName = name

theorem Walk.collide_of_duplicate? {w : Walk} {files : List SectionFile} {code name : String}
    {first second : Path}
    (h : w.duplicate? files = some (.duplicateIdentifier code name first second)) :
    Collide files name first second := by
  rw [duplicate?_eq] at h
  obtain ⟨earlier, g, later, rfl, -, hfault⟩ := firstIdentityFault?_eq_some h
  obtain ⟨hname, hsecond, t, ht, hfirst, hvariable⟩ := eq_of_identityFault? hfault
  obtain ⟨f, hf, rfl⟩ := List.mem_map.mp ht
  have hbefore : [f].Sublist earlier := List.singleton_sublist.mpr hf
  have hbehind : [g].Sublist (g :: later) := List.singleton_sublist.mpr List.mem_cons_self
  exact ⟨f, g, hbefore.append hbehind, hfirst, hsecond.symm, hvariable.symm, hname.symm⟩

/-- The loading of a tree is refused for a name: two of its sections have one variable. -/
theorem Walk.collide_of_load {w : Walk} {oracle : (r : Request) → r.Answer} {limit : Nat}
    {root : Path} {start : Section.Identity} {code name : String} {first second : Path}
    (h : (w.load limit root start).eval oracle =
      .error (.duplicateIdentifier code name first second)) :
    ∃ files, (w.directory limit root start).eval oracle = .ok files ∧
      Collide files name first second := by
  rcases w.failsOnly_load limit root start _ h with hread | ⟨files, hfiles, hduplicate⟩
  · cases hread
  · exact ⟨files, hfiles, collide_of_duplicate? hduplicate⟩

/-- A section is not added for a name: a section that has been added has its variable. -/
theorem Assembly.eq_of_add {a : Assembly} {file : SectionFile} {code name : String}
    {first second : Path}
    (h : a.add file = .error (.duplicateIdentifier code name first second)) :
    name = file.identity.variableName ∧ second = file.path ∧
      ∃ s ∈ a.accepted, s.path = first ∧ s.own.identity.variableName = name := by
  rcases add_eq_error h with hidentity | ⟨problem, hfault⟩ | hfault | hfault
  · obtain ⟨hname, hsecond, t, ht, hfirst, hvariable⟩ := eq_of_identityFault? hidentity
    obtain ⟨s, hs, rfl⟩ := List.mem_map.mp ht
    exact ⟨hname, hsecond, s, hs, hfirst, hvariable.symm⟩
  · cases hfault
  · cases hfault
  · cases hfault

namespace Section.Identity

/-- **When names collide.**  Two sections have one variable just if they have one interface, and
this just if the words of their paths are the same once every word that starts with a digit, except
the first, is put onto the word before it.  All of these names are identifiers, and no variable is
the interface of a section.  So whenever a tree is not loaded or a section not added because a name
is taken, the name is the variable of the section, and of one before it. -/
theorem collide_iff_glued {path path' : List String} {a b : Identity}
    (ha : root.extendAll path = .ok a) (hb : root.extendAll path' = .ok b) :
    (a.variableName = b.variableName ↔ a.interfaceName = b.interfaceName) ∧
      (a.interfaceName = b.interfaceName ↔
        glued (path.flatMap wordsOf) = glued (path'.flatMap wordsOf)) ∧
      (Text.isIdentifier a.variableName = true ∧ Text.isIdentifier a.interfaceName = true) ∧
      (a.variableName ≠ b.interfaceName ∧ a.variableName ≠ a.interfaceName) ∧
      (∀ (σ κ : Type) (S : Storage σ κ) (s : σ) (w : Walk) (limit : Nat) (directory : Path)
          (start : Identity) (code name : String) (first second : Path),
        (S.run (w.load limit directory start).run s).value =
            .error (.duplicateIdentifier code name first second) →
          ∃ files, (S.run (w.directory limit directory start).run s).value = .ok files ∧
            Collide files name first second) ∧
      ∀ (assembly : Assembly) (file : SectionFile) (code name : String) (first second : Path),
        assembly.add file = .error (.duplicateIdentifier code name first second) →
          name = file.identity.variableName ∧ second = file.path ∧
            ∃ s ∈ assembly.accepted, s.path = first ∧ s.own.identity.variableName = name := by
  have hwords : a.words = path.flatMap wordsOf := words_extendAll ha
  have hwords' : b.words = path'.flatMap wordsOf := words_extendAll hb
  refine ⟨variableName_eq_iff, hwords ▸ hwords' ▸ interfaceName_eq_iff,
    ⟨a.isIdentifier_variableName, a.isIdentifier_interfaceName⟩,
    ⟨variableName_ne_interfaceName a b, variableName_ne_interfaceName a a⟩, ?_,
    fun _ _ _ _ _ _ => Assembly.eq_of_add⟩
  intro σ κ S s w limit directory start code name first second h
  rw [(S.run_of_reads (w.reads_load limit directory start) s).2] at h
  obtain ⟨files, hfiles, hcollide⟩ := Walk.collide_of_load h
  exact ⟨files, (S.run_of_reads (w.reads_directory limit directory start) s).2.trans hfiles,
    hcollide⟩

/-- A word that starts with a digit, in a directory and at the end of a file's name: two keys, and
one variable. -/
theorem sample_collide :
    ∃ a b, root.extendAll ["a", "1b"] = .ok a ∧ root.extendAll ["a1b"] = .ok b ∧
      a.key = "a-1b" ∧ b.key = "a1b" ∧ a.variableName = "_a1b" ∧
      a.variableName = b.variableName ∧ a.interfaceName = b.interfaceName := by
  obtain ⟨a, ha, hkey, hname⟩ : ∃ a, root.extendAll ["a", "1b"] = .ok a ∧ a.key = "a-1b" ∧
      a.variableName = "_a1b" := ⟨_, rfl, by decide, by decide⟩
  obtain ⟨b, hb, hkey'⟩ : ∃ b, root.extendAll ["a1b"] = .ok b ∧ b.key = "a1b" :=
    ⟨_, rfl, by decide⟩
  obtain ⟨hvariable, hinterface, -⟩ := collide_iff_glued ha hb
  have hglued := hinterface.mpr (by decide)
  exact ⟨a, b, ha, hb, hkey, hkey', hname, hvariable.mpr hglued, hglued⟩

end Section.Identity

end Phrasebook
