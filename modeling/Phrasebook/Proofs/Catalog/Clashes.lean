import Phrasebook.Proofs.Catalog.Interfaces

/-!
# Proofs — Catalog — Clashes

The names that stand side by side in generated modules, and when two of them are the same.

* The record of a language and the interface of all records have the property `metadata`, and one
  for each published section.  Sections share no key with each other, but nothing keeps one from the
  key `metadata`; this is the only clash (`properties_of_compile`).
* A module brings in what it imports, the constants for sections, and its own identifier.  The
  constants start with an underscore and clash with nothing.  Identifiers are shortcodes without
  their dashes, and only the shortcodes are known to be distinct, so that the identifier of a
  language can be that of its parent, or a name that every module imports; there are no other
  clashes (`names_of_compile`).
-/

namespace Phrasebook

/-- What is distinct and unlike everything else can be left out where distinctness is asked for. -/
theorem nodup_append_append_singleton {α : Type} {as bs : List α} {a : α} (hbs : bs.Nodup)
    (hfree : ∀ b ∈ bs, b ∉ as ∧ b ≠ a) : (as ++ bs ++ [a]).Nodup ↔ (as ++ [a]).Nodup := by
  rw [List.nodup_append, List.nodup_append, List.nodup_append]
  grind

namespace Module

/-! ### Properties -/

/-- The properties of the record, or of the interface of all records, that a statement declares:
its metadata, and then the keys. -/
def Statement.properties? : Statement → Option (List String)
  | .record _ _ _ fields => some ("metadata" :: fields.map Prod.fst)
  | .recordInterface _ _ fields => some ("metadata" :: fields.map Prod.fst)
  | _ => none

/-- The properties of language records. -/
def recordProperties (sections : List CanonicalSection) : List String :=
  "metadata" :: sections.map fun s => s.identity.key

theorem filterMap_properties?_languageRecord (runtime : Runtime)
    (sections : List CanonicalSection) :
    (languageImports runtime ++ [languageRecord sections]).filterMap Statement.properties? =
      [recordProperties sections] := by
  have hkeys : (interfaceFields sections).map Prod.fst = sections.map fun s => s.identity.key :=
    List.map_map
  rw [List.filterMap_append, recordProperties, ← hkeys]
  rfl

/-- Only a section under the key of the metadata clashes. -/
theorem nodup_recordProperties {sections : List CanonicalSection}
    (h : sections.Pairwise fun s t => s.identity.Apart t.identity) :
    (recordProperties sections).Nodup ↔ ∀ s ∈ sections, s.identity.key ≠ "metadata" := by
  rw [recordProperties, List.nodup_cons, List.mem_map]
  constructor
  · rintro ⟨hnone, -⟩ s hs heq
    exact hnone ⟨s, hs, heq⟩
  · intro hall
    exact ⟨fun ⟨s, hs, heq⟩ => hall s hs heq, nodup_keys h⟩

/-! ### Names -/

/-- The names that statements bring into their module. -/
def boundNames (statements : List Statement) : List String :=
  statements.filterMap Statement.binds?

namespace LanguageModule

/-- The names that a module imports whatever its parent is. -/
def sharedNames (m : LanguageModule) : List String :=
  (if m.interpolates then ["interpolate"] else []) ++ ["ILanguage", "Sections"]

/-- The name under which a module imports that of its parent. -/
def parentNames (m : LanguageModule) : List String :=
  (m.parent.map moduleIdentifier).toList

/-- The identifiers of a module and its parent are told apart, from each other and from the names
that are imported besides. -/
structure Unambiguous (m : LanguageModule) : Prop where
  identifier : m.identifier ∉ m.sharedNames
  parent : ∀ parent, m.parent = some parent →
    moduleIdentifier parent ∉ m.sharedNames ∧ moduleIdentifier parent ≠ m.identifier

theorem nodup_sharedNames (m : LanguageModule) : m.sharedNames.Nodup := by
  unfold sharedNames
  split <;> decide

/-- Whether `interpolate` is among them depends on the sections. -/
theorem sharedNames_subset (m : LanguageModule) :
    m.sharedNames ⊆ ["interpolate", "ILanguage", "Sections"] := by
  unfold sharedNames
  split <;> decide

theorem mem_parentNames {m : LanguageModule} {name : String} :
    name ∈ m.parentNames ↔ ∃ parent, m.parent = some parent ∧ moduleIdentifier parent = name := by
  rw [parentNames, Option.mem_toList]
  exact Option.map_eq_some_iff

theorem nodup_parentNames (m : LanguageModule) : m.parentNames.Nodup := by
  unfold parentNames
  cases m.parent with
  | none => exact List.nodup_nil
  | some parent => exact List.nodup_singleton _

theorem unambiguous_iff {m : LanguageModule} :
    m.Unambiguous ↔ (m.sharedNames ++ m.parentNames ++ [m.identifier]).Nodup := by
  constructor
  · intro h
    refine List.nodup_append.mpr ⟨List.nodup_append.mpr
      ⟨m.nodup_sharedNames, m.nodup_parentNames, ?_⟩, List.nodup_singleton _, ?_⟩
    · rintro name hshared _ hparent rfl
      obtain ⟨parent, hsome, rfl⟩ := mem_parentNames.mp hparent
      exact (h.parent parent hsome).1 hshared
    · rintro name himport _ hown rfl
      obtain rfl := List.mem_singleton.mp hown
      rcases List.mem_append.mp himport with hshared | hparent
      · exact h.identifier hshared
      · obtain ⟨parent, hsome, heq⟩ := mem_parentNames.mp hparent
        exact (h.parent parent hsome).2 heq
  · intro hnodup
    obtain ⟨himports, -, hown⟩ := List.nodup_append.mp hnodup
    obtain ⟨-, -, hparents⟩ := List.nodup_append.mp himports
    have hself := List.mem_singleton_self m.identifier
    refine ⟨fun hmem => hown _ (List.mem_append_left _ hmem) _ hself rfl, fun parent hsome => ?_⟩
    have hmem := mem_parentNames.mpr ⟨parent, hsome, rfl⟩
    exact ⟨fun hshared => hparents _ hshared _ hmem rfl,
      hown _ (List.mem_append_right _ hmem) _ hself⟩

theorem boundNames_imports (m : LanguageModule) (runtime : Runtime) :
    boundNames (m.imports runtime) = m.sharedNames ++ m.parentNames := by
  unfold boundNames imports sharedNames parentNames
  rw [List.filterMap_append, List.filterMap_append]
  cases m.interpolates <;> cases m.parent <;> rfl

/-- What a module brings in: its imports, the constants for sections, and its own identifier. -/
theorem boundNames_statements (m : LanguageModule) (runtime : Runtime) :
    boundNames (m.statements runtime) = m.sharedNames ++ m.parentNames ++
      m.constants.filterMap Statement.binds? ++ [m.identifier] := by
  rw [← m.boundNames_imports runtime]
  simp only [boundNames, statements, constants, List.filterMap_append, List.append_assoc]
  rfl

end LanguageModule

end Module

namespace Assembly.Complete

variable {a : Assembly} {files : List SectionFile} {sections : List Module.CanonicalSection}
  (h : a.Complete files sections)
include h

/-- The record has the properties that the interface of all records has. -/
theorem filterMap_properties?_statements (runtime : Module.Runtime) :
    (a.languageModule.statements runtime).filterMap Module.Statement.properties? =
      [Module.recordProperties sections] := by
  have hkeys : a.languageModule.recordFields.map Prod.fst =
      sections.map fun s => s.identity.key := by
    rw [← h.canonical_eq]
    simp only [Module.LanguageModule.recordFields, languageModule, fields, List.map_map]
    rfl
  rw [a.languageModule.filterMap_statements (fun _ _ => ⟨rfl, rfl⟩) (fun _ _ _ => ⟨rfl, rfl⟩)
    (fun _ => rfl), Module.recordProperties, ← hkeys]
  rfl

/-- The constants that a module brings in are named for the sections of its record. -/
theorem boundNames_eq (runtime : Module.Runtime) :
    Module.boundNames (a.languageModule.statements runtime) =
      a.languageModule.sharedNames ++ a.languageModule.parentNames ++
        a.identities.map Section.Identity.variableName ++ [a.languageModule.identifier] := by
  have hconstants : a.languageModule.constants.filterMap Module.Statement.binds? =
      a.identities.map Section.Identity.variableName := by
    have hnames := congrArg (List.filterMap id) h.map_binds?_constants
    simpa only [List.filterMap_map, Function.id_comp, List.filterMap_eq_map'] using hnames
  rw [a.languageModule.boundNames_statements runtime, hconstants]

/-- No variable of a section is an import or the identifier of the module. -/
theorem variableName_free (id : Section.Identity) :
    id.variableName ∉ a.languageModule.sharedNames ++ a.languageModule.parentNames ∧
      id.variableName ≠ a.languageModule.identifier := by
  refine ⟨fun hmem => ?_,
    (Section.Identity.moduleIdentifier_ne_variableName h.isValidShortcode id).symm⟩
  rcases List.mem_append.mp hmem with hshared | hparent
  · have hstart : ∀ name ∈ ["interpolate", "ILanguage", "Sections"],
        name.toList.head? ≠ some '_' := by decide
    exact hstart _ (a.languageModule.sharedNames_subset hshared) id.head?_variableName
  · obtain ⟨parent, hsome, heq⟩ := Module.LanguageModule.mem_parentNames.mp hparent
    exact Section.Identity.moduleIdentifier_ne_variableName
      (h.isValidShortcode_parent parent hsome) id heq

/-- **Only identifiers clash**, with each other or with the names that are imported besides. -/
theorem nodup_boundNames_iff (runtime : Module.Runtime) :
    (Module.boundNames (a.languageModule.statements runtime)).Nodup ↔
      a.languageModule.Unambiguous := by
  have hfree : ∀ name ∈ a.identities.map Section.Identity.variableName,
      name ∉ a.languageModule.sharedNames ++ a.languageModule.parentNames ∧
        name ≠ a.languageModule.identifier := by
    intro name hname
    obtain ⟨id, -, rfl⟩ := List.mem_map.mp hname
    exact h.variableName_free id
  rw [h.boundNames_eq, Module.LanguageModule.unambiguous_iff,
    nodup_append_append_singleton h.nodup_variableNames_identities hfree]

end Assembly.Complete

/-- The keys of the files of a language. -/
def Generator.keys? {σ κ : Type} (g : Generator) (S : Storage σ κ) (limit : Nat) (s : σ)
    (entry : LanguageEntry) : Option (List String) :=
  (Language.named? entry).bind fun l =>
    (S.run (g.sections limit l).run s).value.toOption.map fun files =>
      files.map fun f => f.identity.key

/-- What is published has the keys of the files of the base language. -/
theorem Generator.map_key_of_publishes {σ κ : Type} {g : Generator} {S : Storage σ κ} {limit : Nat}
    {s : σ} {sections : List Module.CanonicalSection} (h : g.Publishes S limit s sections)
    {keys : List String}
    (hkeys : ∀ entry ∈ g.settings.languages, entry.shortcode = g.settings.baseLanguage →
      g.keys? S limit s entry = some keys) :
    (sections.map fun t => t.identity.key) = keys := by
  obtain ⟨entry, hentry, hbase, files, ⟨l, hl, hfiles⟩, hidentities⟩ := h
  have hfound := hkeys entry hentry hbase
  rw [keys?, hl, Option.bind_some, hfiles] at hfound
  have hsame := congrArg (List.map Section.Identity.key) hidentities
  rw [List.map_map, List.map_map] at hsame
  exact hsame.trans (Option.some.inj hfound)

/-! ### A project with clashes -/

namespace Sample

/-- A base language with a section `metadata`, and a language that extends it under a shortcode that
is the same without its dash. -/
def clashing : Generator :=
  { generator with
    settings := { settings with
      baseLanguage := "frfr"
      languages := [⟨"frfr", some "F", none⟩, ⟨"fr-fr", some "G", some "frfr"⟩] } }

def clashingMemory : Memory where
  directories := [⟨"t/frfr"⟩]
  files := [(⟨"t/frfr/metadata.json"⟩, "\x7b\"translations\":\x7b\"k\":\"K\"\x7d\x7d")]
  refusals := []

theorem clashing_isValid : clashing.settings.IsValid := by
  decide +kernel

theorem exists_clashing_catalog :
    ∃ catalog, (Memory.storage.run (clashing.compile 3).run clashingMemory).value = .ok catalog :=
  exists_of_isOk (by decide +kernel)

end Sample

/-! ### What clashes -/

namespace Generator

variable {σ κ : Type} {g : Generator} {S : Storage σ κ} {limit : Nat} {s : σ} {catalog : Catalog}

/-- **What the properties of language records are**, and when they clash.  The interface of all
records and the record of every configured language have the same properties, the metadata and the
keys of the published sections; and these are distinct as long as no section has the key of the
metadata. -/
theorem properties_of_compile (hvalid : g.settings.IsValid)
    (h : (S.run (g.compile limit).run s).value = .ok catalog) :
    ∃ sections, g.Publishes S limit s sections ∧
      (∃ statements, catalog.Has (g.outputPath Module.languageModule)
          (Module.languageInterface g.runtime sections) statements ∧
        statements.filterMap Module.Statement.properties? =
          [Module.recordProperties sections]) ∧
      (∀ entry ∈ g.settings.languages, ∃ m : Module.LanguageModule,
        m.shortcode = entry.shortcode ∧
          catalog.Has (g.outputPath m.shortcode) (m.text g.runtime) (m.statements g.runtime) ∧
          (m.statements g.runtime).filterMap Module.Statement.properties? =
            [Module.recordProperties sections]) ∧
      ((Module.recordProperties sections).Nodup ↔
        ∀ t ∈ sections, t.identity.key ≠ "metadata") := by
  obtain ⟨c⟩ := exists_compilation_of_run h
  refine ⟨c.base.sections, publishes_of_compilation c hvalid,
    ⟨_, c.has_languageInterface hvalid, Module.filterMap_properties?_languageRecord _ _⟩, ?_,
    Module.nodup_recordProperties c.apart⟩
  intro entry hentry
  obtain ⟨a, ha, files, -, hcomplete, hshortcode, -⟩ := exists_of_mem_languages c hvalid hentry
  exact ⟨a.languageModule, hshortcode, c.has_languageModule hvalid ha,
    hcomplete.filterMap_properties?_statements g.runtime⟩

/-- The records of the small project have distinct properties. -/
theorem sample_properties :
    ∃ (catalog : Catalog) (sections : List Module.CanonicalSection),
      (Memory.storage.run (Sample.generator.compile 3).run Sample.memory).value = .ok catalog ∧
      Sample.generator.Publishes Memory.storage 3 Sample.memory sections ∧
      (Module.recordProperties sections).Nodup := by
  obtain ⟨catalog, hcatalog⟩ := Sample.exists_catalog
  obtain ⟨sections, hpublishes, -, -, hdistinct⟩ :=
    properties_of_compile Sample.settings_isValid hcatalog
  have hkeys : (sections.map fun t => t.identity.key) = ["x-b", "a"] :=
    map_key_of_publishes hpublishes (by decide +kernel)
  refine ⟨catalog, sections, hcatalog, hpublishes, hdistinct.mpr fun t ht heq => ?_⟩
  have hmem : t.identity.key ∈ sections.map fun t => t.identity.key := List.mem_map_of_mem ht
  rw [hkeys, heq] at hmem
  exact absurd hmem (by decide)

/-- With a section `metadata` the interface of all records has two properties of this name. -/
theorem sample_metadata_clashes :
    Sample.clashing.settings.IsValid ∧ ∃ (catalog : Catalog)
      (sections : List Module.CanonicalSection) (statements : List Module.Statement),
      (Memory.storage.run (Sample.clashing.compile 3).run Sample.clashingMemory).value =
          .ok catalog ∧
        catalog.Has (Sample.clashing.outputPath Module.languageModule)
          (Module.languageInterface Sample.clashing.runtime sections) statements ∧
        ∃ properties, statements.filterMap Module.Statement.properties? = [properties] ∧
          ¬ properties.Nodup := by
  obtain ⟨catalog, hcatalog⟩ := Sample.exists_clashing_catalog
  obtain ⟨c⟩ := exists_compilation_of_run hcatalog
  have hkeys : (c.base.sections.map fun t => t.identity.key) = ["metadata"] :=
    map_key_of_publishes (publishes_of_compilation c Sample.clashing_isValid) (by decide +kernel)
  obtain ⟨t, ht, hkey⟩ := List.mem_map.mp (hkeys ▸ List.mem_singleton_self "metadata")
  refine ⟨Sample.clashing_isValid, catalog, c.base.sections, _, hcatalog,
    c.has_languageInterface Sample.clashing_isValid, _,
    Module.filterMap_properties?_languageRecord _ _, fun hnodup => ?_⟩
  exact (Module.nodup_recordProperties c.apart).mp hnodup t ht hkey

/-- **When a module binds a name twice.**  The names that the module of a configured language
brings in are distinct just if its identifier and that of its parent are different and none of the
names that are imported besides. -/
theorem names_of_compile (hvalid : g.settings.IsValid)
    (h : (S.run (g.compile limit).run s).value = .ok catalog) :
    ∀ entry ∈ g.settings.languages, ∃ m : Module.LanguageModule,
      m.shortcode = entry.shortcode ∧ m.parent = entry.parent ∧
        catalog.Has (g.outputPath m.shortcode) (m.text g.runtime) (m.statements g.runtime) ∧
        ((Module.boundNames (m.statements g.runtime)).Nodup ↔ m.Unambiguous) := by
  obtain ⟨c⟩ := exists_compilation_of_run h
  intro entry hentry
  obtain ⟨a, ha, files, -, hcomplete, hshortcode, hparent⟩ :=
    exists_of_mem_languages c hvalid hentry
  exact ⟨a.languageModule, hshortcode, hparent, c.has_languageModule hvalid ha,
    hcomplete.nodup_boundNames_iff g.runtime⟩

/-- The modules of the small project bind no name twice. -/
theorem sample_names :
    ∃ catalog, (Memory.storage.run (Sample.generator.compile 3).run Sample.memory).value =
        .ok catalog ∧
      ∀ entry ∈ Sample.settings.languages, ∃ m : Module.LanguageModule,
        m.shortcode = entry.shortcode ∧
          (Module.boundNames (m.statements Sample.generator.runtime)).Nodup := by
  obtain ⟨catalog, hcatalog⟩ := Sample.exists_catalog
  refine ⟨catalog, hcatalog, fun entry hentry => ?_⟩
  obtain ⟨m, hshortcode, hparent, -, hdistinct⟩ :=
    names_of_compile Sample.settings_isValid hcatalog entry hentry
  have hclear : ∀ entry ∈ Sample.settings.languages,
      Module.moduleIdentifier entry.shortcode ∉ ["interpolate", "ILanguage", "Sections"] ∧
        ∀ parent ∈ entry.parent.toList,
          Module.moduleIdentifier parent ∉ ["interpolate", "ILanguage", "Sections"] ∧
            Module.moduleIdentifier parent ≠ Module.moduleIdentifier entry.shortcode := by
    decide
  obtain ⟨hidentifier, hparents⟩ := hclear entry hentry
  rw [← hshortcode] at hidentifier hparents
  refine ⟨m, hshortcode, hdistinct.mpr ⟨fun hmem => hidentifier (m.sharedNames_subset hmem),
    fun parent hsome => ?_⟩⟩
  obtain ⟨hshared, hown⟩ := hparents parent (Option.mem_toList.mpr (hparent ▸ hsome))
  exact ⟨fun hmem => hshared (m.sharedNames_subset hmem), hown⟩

/-- The language that extends another under the same identifier binds it twice. -/
theorem sample_identifier_clashes :
    Sample.clashing.settings.IsValid ∧ ∃ (catalog : Catalog) (m : Module.LanguageModule),
      (Memory.storage.run (Sample.clashing.compile 3).run Sample.clashingMemory).value =
          .ok catalog ∧
        m.shortcode = "fr-fr" ∧
        catalog.Has (Sample.clashing.outputPath m.shortcode) (m.text Sample.clashing.runtime)
          (m.statements Sample.clashing.runtime) ∧
        ¬ (Module.boundNames (m.statements Sample.clashing.runtime)).Nodup := by
  obtain ⟨catalog, hcatalog⟩ := Sample.exists_clashing_catalog
  obtain ⟨c⟩ := exists_compilation_of_run hcatalog
  have hentry : (⟨"fr-fr", some "G", some "frfr"⟩ : LanguageEntry) ∈
      Sample.clashing.settings.languages := List.mem_cons_of_mem _ List.mem_cons_self
  obtain ⟨a, ha, files, -, hcomplete, hshortcode, hparent⟩ :=
    exists_of_mem_languages c Sample.clashing_isValid hentry
  refine ⟨Sample.clashing_isValid, catalog, a.languageModule, hcatalog, hshortcode,
    c.has_languageModule Sample.clashing_isValid ha, fun hnodup => ?_⟩
  have hidentifier : a.languageModule.identifier = "frfr" := by
    rw [Module.LanguageModule.identifier, show a.languageModule.shortcode = _ from hshortcode]
    decide
  have hclear := (hcomplete.nodup_boundNames_iff _).mp hnodup
  have hown := (hclear.parent "frfr" hparent).2
  rw [hidentifier] at hown
  exact hown (by decide)

end Generator

end Phrasebook
