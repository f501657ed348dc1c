import Phrasebook.Proofs.Catalog.Nesting
import Phrasebook.Proofs.Module.Helper
import Phrasebook.Proofs.Syntax.Calls

/-!
# Proofs — Catalog — Helper

When a module imports the function `interpolate`, and when it calls it.  The import is written if
one of the language's own sections interpolates.  Such a section calls the function in its value,
which stands in the module outside of all literals; and without such a section no parenthesis is
opened in the module outside of literals, and no line of it imports anything under that name.  So
imports and calls go together, and with them the templates in the language's own files
(`Generator.helper_imported_iff_called`).
-/

namespace Phrasebook

open Text

namespace Module.LanguageModule

/-- What is known of the parts of a module: its names are tame, and its own sections call
`interpolate` if they interpolate, and call nothing else. -/
structure HelperParts (m : LanguageModule) : Prop where
  identifier : IsTame m.identifier
  parent : ∀ parent, m.parent = some parent → IsTame (moduleIdentifier parent)
  value : ∀ s ∈ m.own, IsWritten
    (fun line => 0 < line.depth ∧ (s.interpolates = false → IsQuiet line.content)) s.value
  calls : ∀ s ∈ m.own, s.interpolates = true → Calls "interpolate" s.value

namespace HelperParts

variable {m : LanguageModule} (h : m.HelperParts)
include h

/-- Without a section that interpolates, what stands bare in the module is tame. -/
theorem partsAre_isTame (hnone : m.interpolates = false) :
    m.PartsAre IsOtherName IsTame (IsWritten IsHelperless) where
  helper hsome := by rw [hnone] at hsome; cases hsome
  interface := ⟨by decide, by decide⟩
  identifier := h.identifier
  parent := h.parent
  value o ho := by
    have hquiet := List.any_eq_false.mp hnone o ho
    exact (h.value o ho).imp fun line hline =>
      .of_depth (hline.2 (Bool.not_eq_true _ ▸ hquiet)) hline.1

/-- **Without a section that interpolates**, the file of the module is written in lines without the
helper. -/
theorem isWritten_text (hnone : m.interpolates = false) (runtime : Runtime) :
    IsWritten IsHelperless (m.text runtime) := by
  have htame := h.partsAre_isTame hnone
  have hsections : IsWritten IsHelperless "\n// Sections\n" :=
    isWritten_heading " Sections" (isTame_of_plain (by decide))
  have hlanguage : IsWritten IsHelperless "\n// Language\n\n" :=
    (isWritten_heading " Language" (isTame_of_plain (by decide))).append
      isWritten_blank
  have hinherited : IsWritten IsHelperless "\n// Inherited sections\n\n" :=
    (isWritten_heading " Inherited sections" (isTame_of_plain (by decide))).append
      isWritten_blank
  have haliases : IsWritten IsHelperless m.aliasesText := by
    unfold aliasesText
    split
    · exact .empty
    · exact hinherited.append (isWritten_statementsText (htame.aliases isOfNames_isTame))
  have hdefault : IsWritten IsHelperless (Statement.exportDefault m.identifier).text :=
    Statement.isWritten_text h.identifier
  have himports := isWritten_statementsText (htame.imports isOfNames_isTame runtime)
  have hrecord := Statement.isWritten_text (htame.record isOfNames_isTame)
  have hvalues := isWritten_spacedText (htame.values isOfNames_isTame)
  exact ((((((((isWritten_banner.append isWritten_blank).append himports).append hsections).append
    hvalues).append haliases).append hlanguage).append
      hrecord).append isWritten_blank).append hdefault

/-- **A module imports `interpolate` if one of its own sections interpolates.** -/
theorem imports_iff (runtime : Runtime) :
    Imports "interpolate" (m.text runtime) ↔ m.interpolates = true := by
  constructor
  · rintro ⟨source, hline⟩
    by_contra hnone
    have hwritten := h.isWritten_text (Bool.not_eq_true _ ▸ hnone) runtime
    obtain ⟨line, hhelperless, heq⟩ := hwritten.exists_of_mem_lines hline
    exact hhelperless.ne_importLine source heq.symm
  · intro hsome
    let content := importLine "interpolate" runtime.interpolateModule
    have hname : IsTame "interpolate" := isTame_of_isIdentifier (by decide)
    obtain ⟨rest, htext⟩ : ∃ rest,
        m.text runtime = banner ++ "\n" ++ Line.text ⟨0, content⟩ ++ rest := by
      simp only [text, imports, hsome, if_true, statementsText, List.cons_append, List.map_cons,
        concat, String.append_assoc]
      exact ⟨_, rfl⟩
    have hline := (isWritten_banner.append isWritten_blank).mem_lines_append
      ⟨0, content⟩ (isTame_importLine hname _).isOneLine rest
    rw [ofList_chars_zero, ← htext] at hline
    exact ⟨_, hline⟩

/-- **A module calls `interpolate` if one of its own sections interpolates.** -/
theorem calls_iff (hbalanced : m.BalancedParts) (runtime : Runtime) :
    Calls "interpolate" (m.text runtime) ↔ m.interpolates = true := by
  constructor
  · intro hcalls
    by_contra hnone
    have hwritten := h.isWritten_text (Bool.not_eq_true _ ▸ hnone) runtime
    exact (hwritten.isQuiet fun _ hline => hline.isQuiet).not_calls (by decide) hcalls
  · intro hsome
    obtain ⟨o, ho, hinterpolates⟩ := List.any_eq_true.mp hsome
    have hvalue : Statement.sectionValue o.identity.variableName o.identity.interfaceName o.value ∈
        m.statements runtime := by
      have hmem : _ ∈ m.values := List.mem_map_of_mem ho
      simp only [statements, List.mem_append]
      exact .inl (.inl (.inr hmem))
    obtain ⟨-, first, rest, before, after, -, -, -, hstands⟩ := hbalanced.exists_stands hvalue
    have hend : IsBalanced "\n" := by decide
    have hcalls := (h.calls o ho hinterpolates).inside
      (hstands.opened.append (hend.passes _)) (endsNoName_lineEnd _) ("\x7d;\n" ++ after)
    rw [hstands.text_eq]
    simpa only [String.append_assoc] using hcalls

end HelperParts

end Module.LanguageModule

/-! ### Compiled languages -/

/-- A section that interpolates calls the function in the value that its file gives. -/
theorem SectionFile.Gives.calls_value {file : SectionFile} {s : AcceptedSection}
    (h : file.Gives s) (hinterpolates : s.own.interpolates = true) :
    Calls "interpolate" s.own.value := by
  obtain ⟨tree, htree, rfl⟩ := h
  exact Syntax.Tree.calls_value htree hinterpolates

namespace Assembly

variable {a : Assembly} {files : List SectionFile} {sections : List Module.CanonicalSection}

/-- The parts of a compiled language's module: what its own files give. -/
theorem Complete.helperParts (h : a.Complete files sections) : a.languageModule.HelperParts where
  identifier := Module.isTame_moduleIdentifier h.isValidShortcode
  parent parent hparent :=
    Module.isTame_moduleIdentifier (h.isValidShortcode_parent parent hparent)
  value := h.holds.forall_own fun _ _ hgives => hgives.isWritten.1
  calls := h.holds.forall_own fun _ _ hgives => hgives.calls_value

/-- One of a language's own sections interpolates if a template stands in one of its files. -/
theorem Holds.interpolates_iff (h : a.Holds files) :
    a.languageModule.interpolates = true ↔
      ∃ file ∈ files, Syntax.HasTemplate file.payload := by
  rw [Module.LanguageModule.interpolates, List.any_eq_true]
  constructor
  · rintro ⟨s, hs, hinterpolates⟩
    obtain ⟨accepted, haccepted, rfl⟩ := List.mem_map.mp hs
    obtain ⟨file, hfile, tree, htree, rfl⟩ := h.exists_file_of_mem haccepted
    exact ⟨file, hfile, (Syntax.Tree.interpolates_iff htree).mp hinterpolates⟩
  · rintro ⟨file, hfile, htemplate⟩
    obtain ⟨accepted, haccepted, tree, htree, rfl⟩ := h.exists_accepted_of_mem hfile
    exact ⟨_, List.mem_map_of_mem haccepted, (Syntax.Tree.interpolates_iff htree).mpr htemplate⟩

end Assembly

namespace Generator

variable {σ κ : Type} {g : Generator} {S : Storage σ κ} {limit : Nat} {s : σ} {catalog : Catalog}

/-- A template stands, at some depth, in one of the files that the storage holds for a configured
language itself. -/
def OwnsTemplate (g : Generator) (S : Storage σ κ) (limit : Nat) (s : σ) (entry : LanguageEntry) :
    Prop :=
  ∃ files, g.Loads S limit s entry files ∧ ∃ file ∈ files, Syntax.HasTemplate file.payload

/-- **Modules import the helper that they call, and no other modules do.**  For a catalog of valid
settings, the module of a configured language imports `interpolate` just if it calls it, and it does
just if a template stands in one of the language's own files; what it inherits, and what its texts
and names say, makes no difference. -/
theorem helper_imported_iff_called (hvalid : g.settings.IsValid)
    (h : (S.run (g.compile limit).run s).value = .ok catalog) :
    ∀ entry ∈ g.settings.languages, ∃ m : Module.LanguageModule,
      m.shortcode = entry.shortcode ∧
        catalog.Has (g.outputPath m.shortcode) (m.text g.runtime) (m.statements g.runtime) ∧
        (Imports "interpolate" (m.text g.runtime) ↔ Calls "interpolate" (m.text g.runtime)) ∧
        (Calls "interpolate" (m.text g.runtime) ↔ g.OwnsTemplate S limit s entry) := by
  intro entry hentry
  obtain ⟨c⟩ := exists_compilation_of_run h
  obtain ⟨a, ha, files, hfiles, hcomplete, hshortcode, -⟩ :=
    exists_of_mem_languages c hvalid hentry
  have hparts := hcomplete.helperParts
  have htemplate : a.languageModule.interpolates = true ↔ g.OwnsTemplate S limit s entry := by
    rw [hcomplete.holds.interpolates_iff]
    constructor
    · exact fun hfile => ⟨files, hfiles, hfile⟩
    · rintro ⟨files', hfiles', hfile⟩
      rwa [hfiles.unique hfiles']
  have hcalls := hparts.calls_iff hcomplete.balancedParts g.runtime
  exact ⟨a.languageModule, hshortcode, c.has_languageModule hvalid ha,
    (hparts.imports_iff g.runtime).trans hcalls.symm, hcalls.trans htemplate⟩

/-- In the small project the base language has a template, so that its module imports the helper and
calls it. -/
theorem sample_helper_imported :
    ∃ (catalog : Catalog) (m : Module.LanguageModule),
      (Memory.storage.run (Sample.generator.compile 3).run Sample.memory).value = .ok catalog ∧
        m.shortcode = "en" ∧
        catalog.Has (Sample.generator.outputPath m.shortcode) (m.text Sample.generator.runtime)
          (m.statements Sample.generator.runtime) ∧
        Imports "interpolate" (m.text Sample.generator.runtime) ∧
        Calls "interpolate" (m.text Sample.generator.runtime) := by
  obtain ⟨catalog, hcatalog⟩ := Sample.exists_catalog
  obtain ⟨m, hshortcode, hhas, himports, hcalls⟩ :=
    helper_imported_iff_called Sample.settings_isValid hcatalog ⟨"en", some "E", none⟩ (by decide)
  have hloaded : (Memory.storage.run (Sample.generator.sections 3 ⟨"en", "E", none⟩).run
      Sample.memory).value.toOption.map (fun files =>
        files.any fun file => !file.payload.templates.isEmpty) = some true := by
    decide +kernel
  obtain ⟨files, hfiles, hany⟩ := exists_of_map_toOption hloaded
  obtain ⟨file, hfile, hsome⟩ := List.any_eq_true.mp hany
  have htemplate : Syntax.HasTemplate file.payload :=
    Syntax.hasTemplate_iff.mpr (by simpa using hsome)
  have hcalled := hcalls.mpr ⟨files, ⟨_, by decide +kernel, hfiles⟩, file, hfile, htemplate⟩
  exact ⟨catalog, m, hcatalog, hshortcode, hhas, himports.mpr hcalled, hcalled⟩

end Generator

end Phrasebook
