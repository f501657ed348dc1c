import Phrasebook.Proofs.Catalog.Files

/-!
# Proofs — Catalog — Constants

The constants that the module of a language has for the published sections.  `Assembly.Complete`
is what is known of a language that has been compiled.  From it follows that the module has one
constant for every published section, under a name that nothing else in it has: the value of the
language's own file, or else the constant of its parent (`Complete.exists_constant`).
-/

namespace Phrasebook

namespace Section.Identity

variable {a b : Identity}

/-- The variable of a section starts with an underscore. -/
theorem head?_variableName (id : Identity) : id.variableName.toList.head? = some '_' := by
  unfold variableName
  split
  · rfl
  · simp

/-- What starts otherwise is no variable of a section. -/
theorem ne_variableName {name : String} (h : name.toList.head? ≠ some '_') (id : Identity) :
    name ≠ id.variableName :=
  fun heq => h (heq ▸ id.head?_variableName)

theorem moduleIdentifier_ne_variableName {shortcode : String}
    (h : isValidShortcode shortcode = true) (id : Identity) :
    Module.moduleIdentifier shortcode ≠ id.variableName := by
  obtain ⟨c, cs, hcs, hc⟩ := exists_toList_moduleIdentifier h
  refine ne_variableName (fun heq => ?_) id
  obtain rfl : c = '_' := by simpa [hcs] using heq
  cases hc

end Section.Identity

/-- The fields of a record beside its metadata: key and value. -/
def Module.Statement.recordFields? : Statement → Option (List (String × String))
  | .record _ _ _ fields => some fields
  | _ => none

namespace Module.LanguageModule

/-- The statements of the module that bring a name into it. -/
def binding (m : LanguageModule) (runtime : Runtime) (name : String) : List Statement :=
  (m.statements runtime).filter fun s => s.binds? == some name

/-- The constants for sections. -/
def constants (m : LanguageModule) : List Statement :=
  m.values ++ m.aliases

/-- What a module has for a section: the value that the language's own file gives, or if there is
none, the constant of its parent. -/
inductive Provides (m : LanguageModule) (files : List SectionFile) (id : Section.Identity) :
    Statement → Prop where
  | own {file : SectionFile} {tree : Syntax.Tree} (hfile : file ∈ files) (hid : file.identity = id)
      (htree : Syntax.Tree.ofPayload? file.payload = .ok tree) :
      Provides m files id (.sectionValue id.variableName id.interfaceName tree.value)
  | inherited {parent : String} (hnone : id ∉ files.map SectionFile.identity)
      (hparent : m.parent = some parent) :
      Provides m files id
        (.sectionAlias id.variableName id.interfaceName (moduleIdentifier parent))

theorem Provides.binds? {m : LanguageModule} {files : List SectionFile} {id : Section.Identity}
    {s : Statement} (h : m.Provides files id s) : s.binds? = some id.variableName := by
  cases h <;> rfl

theorem Provides.sectionExport? {m : LanguageModule} {files : List SectionFile}
    {id : Section.Identity} {s : Statement} (h : m.Provides files id s) :
    s.sectionExport? = some (id.variableName, id.interfaceName) := by
  cases h <;> rfl

/-- What a module imports. -/
theorem mem_imports {m : LanguageModule} {runtime : Runtime} {s : Statement}
    (hs : s ∈ m.imports runtime) :
    s = .importName "interpolate" runtime.interpolateModule ∨
      s = .importName "ILanguage" (sibling languageModule) ∨
      s = .importAll "Sections" (sibling sectionsModule) ∨
      ∃ parent, m.parent = some parent ∧
        s = .importAll (moduleIdentifier parent) (sibling parent) := by
  rw [imports, List.mem_append, List.mem_append] at hs
  rcases hs with (hinterpolate | hshared) | hparent
  · split at hinterpolate
    · exact .inl (List.mem_singleton.mp hinterpolate)
    · cases hinterpolate
  · rcases List.mem_cons.mp hshared with hlanguage | hsections
    · exact .inr (.inl hlanguage)
    · exact .inr (.inr (.inl (List.mem_singleton.mp hsections)))
  · split at hparent
    · next parent hsome =>
        exact .inr (.inr (.inr ⟨parent, hsome, List.mem_singleton.mp hparent⟩))
    · cases hparent

/-- What exports a name for a section, or is a record, is no import. -/
theorem sectionExport?_of_mem_imports {m : LanguageModule} {runtime : Runtime} {s : Statement}
    (hs : s ∈ m.imports runtime) : s.sectionExport? = none ∧ s.recordFields? = none := by
  rcases mem_imports hs with rfl | rfl | rfl | ⟨parent, -, rfl⟩ <;> exact ⟨rfl, rfl⟩

end Module.LanguageModule

/-- What is known of a language that has been compiled, with its files and the published
sections. -/
structure Assembly.Complete (a : Assembly) (files : List SectionFile)
    (sections : List Module.CanonicalSection) : Prop where
  holds : a.Holds files
  canonical_eq : a.canonical = sections
  apart : sections.Pairwise fun s t => s.identity.Apart t.identity
  base_eq_none : a.language.parent = none → a.base = none
  isValidShortcode : isValidShortcode a.language.shortcode = true
  isValidShortcode_parent : ∀ parent, a.language.parent = some parent →
    Phrasebook.isValidShortcode parent = true

/-- Published sections share no variable. -/
theorem nodup_variableNames {sections : List Module.CanonicalSection}
    (h : sections.Pairwise fun s t => s.identity.Apart t.identity) :
    (sections.map fun s => s.identity.variableName).Nodup :=
  List.pairwise_map.mpr (h.imp Section.Identity.Apart.variableName_ne)

/-- Published sections share no key. -/
theorem nodup_keys {sections : List Module.CanonicalSection}
    (h : sections.Pairwise fun s t => s.identity.Apart t.identity) :
    (sections.map fun s => s.identity.key).Nodup :=
  List.pairwise_map.mpr (h.imp Section.Identity.Apart.key_ne)

namespace Assembly

/-- The sections that the language has itself, and behind them those that it inherits. -/
def identities (a : Assembly) : List Section.Identity :=
  a.own.map Module.OwnSection.identity ++
    a.languageModule.inheritedFields.map Module.Field.identity

/-- What is inherited is what has been published and the language does not have itself. -/
theorem map_identity_inheritedFields (a : Assembly) :
    a.languageModule.inheritedFields.map Module.Field.identity =
      (a.canonical.map Module.CanonicalSection.identity).filter fun id => !a.hasKey id.key := by
  simp only [Module.LanguageModule.inheritedFields, languageModule, fields, List.filter_map,
    List.map_map]
  congr 1
  refine List.filter_congr fun s _ => ?_
  cases hkey : a.hasKey s.identity.key <;> simp [hkey]

namespace Holds

variable {a : Assembly} {files : List SectionFile} (h : a.Holds files)
include h

/-- A language has only sections that its record has. -/
theorem mem_of_mem_own {id : Section.Identity}
    (hid : id ∈ a.own.map Module.OwnSection.identity) :
    id ∈ a.canonical.map Module.CanonicalSection.identity := by
  obtain ⟨s, hs, rfl⟩ := List.mem_map.mp hid
  obtain ⟨accepted, haccepted, rfl⟩ := List.mem_map.mp hs
  exact List.mem_map.mpr ⟨_, h.mem_canonical haccepted, rfl⟩

/-- **A language has or inherits just what its record has.** -/
theorem mem_identities_iff {id : Section.Identity} :
    id ∈ a.identities ↔ id ∈ a.canonical.map Module.CanonicalSection.identity := by
  rw [identities, List.mem_append, a.map_identity_inheritedFields, List.mem_filter]
  constructor
  · rintro (hown | ⟨hpublished, -⟩)
    · exact h.mem_of_mem_own hown
    · exact hpublished
  · intro hpublished
    cases hkey : a.hasKey id.key with
    | true => exact .inl (hasKey_iff.mp hkey)
    | false => exact .inr ⟨hpublished, rfl⟩

/-- Nothing is both had and inherited, or twice. -/
theorem nodup_identities (hapart : a.canonical.Pairwise fun s t => s.identity.Apart t.identity) :
    a.identities.Nodup := by
  rw [identities, a.map_identity_inheritedFields, List.nodup_append]
  refine ⟨List.pairwise_map.mpr (h.apart_own.imp Section.Identity.Apart.ne),
    (List.pairwise_map.mpr (hapart.imp Section.Identity.Apart.ne)).filter _, ?_⟩
  rintro id hown id' hinherited rfl
  have hkey := (List.mem_filter.mp hinherited).2
  rw [hasKey_iff.mpr hown] at hkey
  cases hkey

end Holds

namespace Complete

variable {a : Assembly} {files : List SectionFile} {sections : List Module.CanonicalSection}
  (h : a.Complete files sections)
include h

/-- **A language has or inherits just what has been published.** -/
theorem mem_identities_iff {id : Section.Identity} :
    id ∈ a.identities ↔ id ∈ sections.map Module.CanonicalSection.identity := by
  rw [h.holds.mem_identities_iff, h.canonical_eq]

theorem nodup_identities : a.identities.Nodup :=
  h.holds.nodup_identities (h.canonical_eq ▸ h.apart)

/-- Only a language that extends another inherits. -/
theorem exists_parent {f : Module.Field} (hf : f ∈ a.languageModule.inheritedFields) :
    ∃ parent, a.language.parent = some parent := by
  cases hparent : a.language.parent with
  | some parent => exact ⟨parent, rfl⟩
  | none =>
      -- it has all that it publishes
      have hmem := List.mem_map_of_mem (f := Module.Field.identity) hf
      rw [a.map_identity_inheritedFields, canonical, h.base_eq_none hparent, List.mem_filter,
        List.map_map] at hmem
      have hkey := hmem.2
      rw [hasKey_iff.mpr hmem.1] at hkey
      cases hkey

/-- The constants are named by what the language has and inherits. -/
theorem map_binds?_constants :
    a.languageModule.constants.map Module.Statement.binds? =
      a.identities.map fun id => some id.variableName := by
  have haliases : a.languageModule.aliases.map Module.Statement.binds? =
      a.languageModule.inheritedFields.map fun f => some f.identity.variableName := by
    unfold Module.LanguageModule.aliases
    split
    · next hparent =>
        have hnil : a.languageModule.inheritedFields = [] :=
          List.eq_nil_iff_forall_not_mem.mpr fun f hf => by
            obtain ⟨parent, hsome⟩ := h.exists_parent hf
            cases hparent.symm.trans hsome
        rw [hnil]
        rfl
    · exact List.map_map
  rw [Module.LanguageModule.constants, List.map_append, haliases, identities, List.map_append,
    Module.LanguageModule.values, List.map_map, List.map_map, List.map_map]
  rfl

/-- What a language has or inherits shares no variable. -/
theorem nodup_variableNames_identities :
    (a.identities.map Section.Identity.variableName).Nodup := by
  refine List.Nodup.map_on (fun id hid id' hid' heq => ?_) h.nodup_identities
  obtain ⟨s, hs, rfl⟩ := List.mem_map.mp (h.mem_identities_iff.mp hid)
  obtain ⟨t, ht, rfl⟩ := List.mem_map.mp (h.mem_identities_iff.mp hid')
  rw [List.inj_on_of_nodup_map (nodup_variableNames h.apart) hs ht heq]

end Complete

end Assembly

/-! ### Compiled languages -/

namespace Compilation

variable {g : Generator} {oracle : (r : Request) → r.Answer} {limit : Nat} {catalog : Catalog}
  (c : Compilation g oracle limit catalog)
include c

/-- Every record has the sections that the base language publishes. -/
theorem canonical_eq {a : Assembly} (ha : a ∈ c.assemblies) : a.canonical = c.base.sections := by
  cases hparent : a.language.parent with
  | none =>
      obtain ⟨hbase, hpublished⟩ := c.publishes a ha hparent
      simp only [Assembly.published?, hbase, Option.some.injEq] at hpublished
      simp only [Assembly.canonical, hbase, ← hpublished]
  | some parent =>
      have hbase := c.fitsIn a ha (by simp [hparent])
      simp only [Assembly.canonical, hbase]

/-- No two published sections share a key or a name. -/
theorem apart : c.base.sections.Pairwise fun s t => s.identity.Apart t.identity := by
  obtain ⟨first, rest, hcons, hparent, -⟩ := c.exists_cons
  have hfirst : first ∈ c.assemblies := hcons ▸ List.mem_cons_self
  obtain ⟨files, -, hholds⟩ := c.holds first hfirst
  have hbase := (c.publishes first hfirst hparent).1
  rw [← c.canonical_eq hfirst, Assembly.canonical, hbase]
  exact List.pairwise_map.mpr hholds.apart_own

/-- **Every language that has been compiled is complete.** -/
theorem exists_complete (hvalid : g.settings.IsValid) {a : Assembly} (ha : a ∈ c.assemblies) :
    ∃ files, (g.sections limit a.language).eval oracle = .ok files ∧
      a.Complete files c.base.sections := by
  obtain ⟨files, hfiles, hholds⟩ := c.holds a ha
  refine ⟨files, hfiles, hholds, c.canonical_eq ha, c.apart,
    fun hparent => (c.publishes a ha hparent).1, c.isValidShortcode hvalid ha,
    fun parent hparent => ?_⟩
  obtain ⟨p, hp, rfl⟩ := c.exists_parent ha hparent
  exact c.isValidShortcode hvalid hp

end Compilation

namespace Generator

variable {σ κ : Type} {g : Generator} {S : Storage σ κ} {limit : Nat} {s : σ} {catalog : Catalog}

/-- The files that compiling has found are those that the storage holds. -/
theorem loads_of_eval {entry : LanguageEntry} {l : Language} {files : List SectionFile}
    (hnamed : Language.named? entry = some l)
    (h : (g.sections limit l).eval (S.oracle s) = .ok files) : g.Loads S limit s entry files :=
  ⟨l, hnamed, (S.run_of_reads (g.reads_sections limit l) s).2.trans h⟩

/-- There is but one way to load the files of a language. -/
theorem Loads.unique {entry : LanguageEntry} {files files' : List SectionFile}
    (h : g.Loads S limit s entry files) (h' : g.Loads S limit s entry files') : files = files' := by
  obtain ⟨l, hl, hfiles⟩ := h
  obtain ⟨l', hl', hfiles'⟩ := h'
  obtain rfl := Option.some.inj (hl.symm.trans hl')
  exact Except.ok.inj (hfiles.symm.trans hfiles')

/-- **Every configured language has been compiled**, from the files that the storage holds. -/
theorem exists_of_mem_languages (c : Compilation g (S.oracle s) limit catalog)
    (hvalid : g.settings.IsValid) {entry : LanguageEntry} (hentry : entry ∈ g.settings.languages) :
    ∃ a ∈ c.assemblies, ∃ files, g.Loads S limit s entry files ∧
      a.Complete files c.base.sections ∧ a.language.shortcode = entry.shortcode ∧
        a.language.parent = entry.parent := by
  obtain ⟨l, hl, hnamed⟩ := c.ordered.exists_of_mem_entries hentry
  obtain ⟨a, ha, rfl⟩ := List.mem_map.mp hl
  obtain ⟨files, hfiles, hcomplete⟩ := c.exists_complete hvalid ha
  exact ⟨a, ha, files, loads_of_eval hnamed hfiles, hcomplete,
    Language.shortcode_of_named? hnamed, Language.parent_of_named? hnamed⟩

/-- The sections that are published for a project: those of the files of its base language, in
order. -/
def Publishes (g : Generator) (S : Storage σ κ) (limit : Nat) (s : σ)
    (sections : List Module.CanonicalSection) : Prop :=
  ∃ entry ∈ g.settings.languages, entry.shortcode = g.settings.baseLanguage ∧
    ∃ files, g.Loads S limit s entry files ∧
      sections.map Module.CanonicalSection.identity = files.map SectionFile.identity

/-- What has been published comes from the files of the base language. -/
theorem publishes_of_compilation (c : Compilation g (S.oracle s) limit catalog)
    (hvalid : g.settings.IsValid) : g.Publishes S limit s c.base.sections := by
  obtain ⟨l, hl, hbase⟩ := c.ordered.exists_base
  obtain ⟨entry, hentry, hnamed⟩ := c.ordered.exists_entry_of_mem hl
  obtain ⟨a, ha, files, hfiles, hcomplete, hshortcode, -⟩ :=
    exists_of_mem_languages c hvalid hentry
  have hentrybase : entry.shortcode = g.settings.baseLanguage :=
    (Language.shortcode_of_named? hnamed).symm.trans hbase
  have hparent : a.language.parent = none :=
    (c.ordered.parent_eq_none_iff (List.mem_map_of_mem ha)).mpr (hshortcode.trans hentrybase)
  refine ⟨entry, hentry, hentrybase, files, hfiles, ?_⟩
  rw [← hcomplete.holds.map_identity_own, ← hcomplete.canonical_eq, Assembly.canonical,
    hcomplete.base_eq_none hparent, List.map_map]
  rfl

end Generator

end Phrasebook
