import Phrasebook.Proofs.Catalog.Interfaces
import Phrasebook.Proofs.Module.Nesting

/-!
# Proofs — Catalog — Nesting

No content breaks out of its place in a generated file.  Of a module, what stands bare are names,
which are identifiers, and the values of its sections, which are balanced as they come from sound
templates (`Assembly.Complete.balancedParts`); so is every statement, and with them the file.  A
module is its beginning up to some of the values, and what follows; so the constant of each section
stands between the statements before it and those behind it, and ends where its body does.
-/

namespace Phrasebook

open Text

namespace Module.LanguageModule

/-- What stands bare in the statements of a module is balanced. -/
abbrev BalancedParts (m : LanguageModule) : Prop :=
  m.PartsAre IsBalanced IsBalanced IsBalanced

namespace BalancedParts

variable {m : LanguageModule} (h : m.BalancedParts)
include h

theorem isBalanced_beginning (runtime : Runtime) {values : List Statement}
    (hvalues : ∀ s ∈ values, s.HasBalancedParts) : IsBalanced (m.beginning runtime values) := by
  have hblank : IsBalanced "\n" := by decide
  have hheading : IsBalanced "\n// Sections\n" := by decide
  exact (((isBalanced_banner.append hblank).append
    (isBalanced_statementsText (h.imports isOfNames_isBalanced runtime))).append hheading).append
      (isBalanced_spacedText hvalues)

theorem isBalanced_ending : IsBalanced m.ending := by
  have haliases : IsBalanced m.aliasesText := by
    unfold aliasesText
    split
    · exact isBalanced_empty
    · exact Passes.append (by decide)
        (isBalanced_statementsText (h.aliases isOfNames_isBalanced))
  have hdefault : IsBalanced (Statement.exportDefault m.identifier).text :=
    Statement.isBalanced_text h.identifier
  have hblank : IsBalanced "\n" := by decide
  have hheading : IsBalanced "\n// Language\n\n" := by decide
  have hrecord := Statement.isBalanced_text (h.record isOfNames_isBalanced)
  exact (((haliases.append hheading).append hrecord).append hblank).append hdefault

/-- **The file of a module is balanced.** -/
theorem isBalanced_text (runtime : Runtime) : IsBalanced (m.text runtime) := by
  rw [text_eq]
  exact (h.isBalanced_beginning runtime (h.values isOfNames_isBalanced)).append h.isBalanced_ending

/-- **Each constant stands in its place**: behind the statements before it, before those behind it,
and with its body closed. -/
theorem exists_stands {runtime : Runtime} {constant interface body : String}
    (hs : .sectionValue constant interface body ∈ m.statements runtime) :
    IsBalanced body ∧ ∃ first rest before after,
      m.statements runtime = first ++ .sectionValue constant interface body :: rest ∧
        LaidOut first before ∧ LaidOut rest after ∧
        Stands constant interface body before after (m.text runtime) := by
  have hvalue : .sectionValue constant interface body ∈ m.values := by
    rcases List.mem_append.mp (mem_constants hs rfl) with hvalue | halias
    · exact hvalue
    · unfold LanguageModule.aliases at halias
      split at halias
      · cases halias
      · obtain ⟨f, -, heq⟩ := List.mem_map.mp halias
        cases heq
  have hsound := h.values isOfNames_isBalanced
  obtain ⟨hconstant, hinterface, hbody⟩ := hsound _ hvalue
  obtain ⟨earlier, later, hvalues⟩ := List.append_of_mem hvalue
  have hearlier : ∀ s ∈ earlier, s.HasBalancedParts := fun s hs =>
    hsound s (hvalues ▸ List.mem_append_left _ hs)
  have hblank : IsBalanced "\n" := by decide
  refine ⟨hbody, m.imports runtime ++ earlier,
    later ++ (m.aliases ++ [m.record, .exportDefault m.identifier]),
    m.beginning runtime earlier ++ "\n", spacedText later ++ m.ending, ?_, ?_,
    (LaidOut.spacedText later).append m.laidOut_ending, ?_⟩
  · simp only [statements, hvalues, List.append_assoc, List.cons_append]
  · have hlaid := (m.laidOut_beginning runtime earlier).append .blank
    rwa [List.append_nil] at hlaid
  · have htext : m.text runtime = m.beginning runtime earlier ++ "\n" ++
        (Statement.sectionValue constant interface body).text ++
          (spacedText later ++ m.ending) := by
      rw [text_eq, hvalues]
      simp only [beginning, spacedText, List.map_append, List.map_cons, concat_append, concat,
        String.append_assoc]
    rw [htext]
    exact stands_append hconstant hinterface hbody
      ((h.isBalanced_beginning runtime hearlier).append hblank) _

end BalancedParts

end Module.LanguageModule

/-- A section that a file gives has balanced bodies. -/
theorem SectionFile.Gives.isBalanced {file : SectionFile} {s : AcceptedSection}
    (h : file.Gives s) : IsBalanced s.own.value ∧ IsBalanced s.own.interface := by
  obtain ⟨tree, htree, rfl⟩ := h
  exact ⟨Syntax.Tree.isBalanced_value htree, Syntax.Tree.isBalanced_interface htree⟩

namespace Assembly

variable {a : Assembly} {files : List SectionFile} {sections : List Module.CanonicalSection}

/-- What stands bare in the module of a language that has been compiled is balanced. -/
theorem Complete.balancedParts (h : a.Complete files sections) :
    a.languageModule.BalancedParts where
  helper _ := by decide
  interface := by decide
  identifier := Module.isBalanced_moduleIdentifier h.isValidShortcode
  parent parent hparent :=
    Module.isBalanced_moduleIdentifier (h.isValidShortcode_parent parent hparent)
  value := h.holds.forall_own fun _ _ hgives => hgives.isBalanced.1

end Assembly

/-- All files of a catalog from valid settings are balanced. -/
theorem Compilation.isBalanced_files {g : Generator} {oracle : (r : Request) → r.Answer}
    {limit : Nat} {catalog : Catalog} (c : Compilation g oracle limit catalog)
    (hvalid : g.settings.IsValid) : ∀ file ∈ catalog.files, IsBalanced file.contents := by
  obtain ⟨first, rest, hcons, hfirst, hrest⟩ := c.exists_cons
  have hmodule : ∀ a ∈ c.assemblies, IsBalanced (g.moduleFile a).contents := fun a ha => by
    obtain ⟨files, -, hcomplete⟩ := c.exists_complete hvalid ha
    exact hcomplete.balancedParts.isBalanced_text g.runtime
  have hbase : first ∈ c.assemblies := hcons ▸ List.mem_cons_self
  obtain ⟨files, -, hholds⟩ := c.holds first hbase
  have hpublished : ∀ s ∈ c.base.sections, IsBalanced s.interface :=
    hholds.forall_published (c.publishes first hbase hfirst).2 fun _ _ hgives =>
      hgives.isBalanced.2
  rw [c.files_eq hcons hfirst hrest]
  simp only [List.forall_mem_cons, List.forall_mem_map]
  exact ⟨hmodule first hbase, Module.isBalanced_sectionsInterface hpublished,
    Module.isBalanced_languageInterface _ _, fun a ha =>
      hmodule a (hcons ▸ List.mem_cons_of_mem _ ha)⟩

namespace Generator

variable {σ κ : Type} {g : Generator} {S : Storage σ κ} {limit : Nat} {s : σ} {catalog : Catalog}

/-- **No content breaks out of its place.**  All files of a catalog from valid settings are
balanced; and in the module of each configured language, the body of every section is balanced and
ends where its constant does. -/
theorem compile_balanced (hvalid : g.settings.IsValid)
    (h : (S.run (g.compile limit).run s).value = .ok catalog) :
    (∀ file ∈ catalog.files, IsBalanced file.contents) ∧
      ∀ entry ∈ g.settings.languages, ∃ m : Module.LanguageModule,
        m.shortcode = entry.shortcode ∧
          catalog.Has (g.outputPath m.shortcode) (m.text g.runtime) (m.statements g.runtime) ∧
          ∀ constant interface body,
            .sectionValue constant interface body ∈ m.statements g.runtime →
              IsBalanced body ∧ ∃ first rest before after,
                m.statements g.runtime = first ++ .sectionValue constant interface body :: rest ∧
                  Module.LaidOut first before ∧ Module.LaidOut rest after ∧
                  Module.Stands constant interface body before after (m.text g.runtime) := by
  obtain ⟨c⟩ := exists_compilation_of_run h
  refine ⟨c.isBalanced_files hvalid, fun entry hentry => ?_⟩
  obtain ⟨a, ha, files, -, hcomplete, hshortcode, -⟩ := exists_of_mem_languages c hvalid hentry
  exact ⟨a.languageModule, hshortcode, c.has_languageModule hvalid ha,
    fun _ _ _ hs => hcomplete.balancedParts.exists_stands hs⟩

/-- The files of the small project are balanced. -/
theorem sample_balanced :
    ∃ catalog, (Memory.storage.run (Sample.generator.compile 3).run Sample.memory).value =
        .ok catalog ∧
      catalog.files.length = 5 ∧ ∀ file ∈ catalog.files, IsBalanced file.contents := by
  have hcompiled : (Memory.storage.run (Sample.generator.compile 3).run
      Sample.memory).value.toOption.map (fun catalog => catalog.files.length) = some 5 := by
    decide +kernel
  obtain ⟨catalog, hcatalog, hlength⟩ := exists_of_map_toOption hcompiled
  exact ⟨catalog, hcatalog, hlength, (compile_balanced Sample.settings_isValid hcatalog).1⟩

end Generator

end Phrasebook
