import Phrasebook.Proofs.Catalog.Compile
import Phrasebook.Proofs.Module.Lines
import Phrasebook.Proofs.Storage.Path
import Phrasebook.Proofs.Syntax.Calls

/-!
# Proofs — Catalog — Files

The files of a catalog.  They are the modules of the languages and the two files that all of them
share (`files_eq`), under names of which no two are equal, so that no file is written over another:
at each of these paths the catalog has one file, with the statements of one module
(`has_languageModule`, `has_sectionsInterface`, `has_languageInterface`).  The text of a file shows
its statements in both ways: it is their texts in order, and what is read from its lines is what
they spell, as names are on one line and the bodies of sections in indented ones
(`partsAre_isOneLine`).
-/

namespace Phrasebook

/-- Among values of which no two are equal there is just one of each. -/
theorem filter_eq_singleton {α β : Type} [BEq β] [LawfulBEq β] {f : α → β} {as : List α} {a : α}
    (h : (as.map f).Nodup) (ha : a ∈ as) : as.filter (fun x => f x == f a) = [a] := by
  induction as with
  | nil => cases ha
  | cons b bs ih =>
      obtain ⟨hb, hbs⟩ := List.nodup_cons.mp h
      rcases List.mem_cons.mp ha with rfl | ha
      · rw [List.filter_cons_of_pos (by simp), List.filter_eq_nil_iff.mpr]
        intro x hx heq
        exact hb (beq_iff_eq.mp heq ▸ List.mem_map_of_mem hx)
      · rw [List.filter_cons_of_neg, ih hbs ha]
        intro heq
        exact hb (beq_iff_eq.mp heq ▸ List.mem_map_of_mem ha)

/-- Languages from valid settings have well-formed shortcodes. -/
theorem LanguageSet.Ordered.isValidShortcode {settings : Settings} {ls : List Language}
    (h : LanguageSet.Ordered settings.baseLanguage settings.languages ls)
    (hvalid : settings.IsValid) : ∀ l ∈ ls, Phrasebook.isValidShortcode l.shortcode = true := by
  intro l hl
  obtain ⟨entry, hentry, hnamed⟩ := h.exists_entry_of_mem hl
  rw [Language.shortcode_of_named? hnamed]
  exact hvalid.isValidShortcode entry hentry

/-- There is one file at a path, and it has the statements of a module: their texts in order, from
which just these statements are read. -/
def Catalog.Has (catalog : Catalog) (path : Path) (text : String)
    (statements : List Module.Statement) : Prop :=
  catalog.files.filter (fun f => f.path.same path) = [⟨path, text⟩] ∧
    Module.LaidOut statements text ∧ Module.Spells statements text

/-- What a file gives is written in indented lines, and those of a value that does not interpolate
are quiet. -/
theorem SectionFile.Gives.isWritten {file : SectionFile} {s : AcceptedSection} (h : file.Gives s) :
    Text.IsWritten
        (fun line => 0 < line.depth ∧ (s.own.interpolates = false → Text.IsQuiet line.content))
        s.own.value ∧
      Text.IsWritten (fun line => 0 < line.depth) s.own.interface := by
  obtain ⟨tree, htree, rfl⟩ := h
  exact ⟨Syntax.Tree.isWritten_value htree, Syntax.Tree.isWritten_interface htree⟩

/-! ### The names of generated files -/

/-- A name without separators is, with its extension, a name of its own. -/
theorem isPlain_fileName {name : String} (h : '/' ∉ name.toList) :
    Path.IsPlain (Module.fileName name) := by
  have hlast : (Module.fileName name).toList.getLast? = some 's' := by
    simp [Module.fileName]
  have hne : ∀ other : String, other.toList.getLast? ≠ some 's' → Module.fileName name ≠ other :=
    fun other hother heq => hother (heq ▸ hlast)
  have hempty := hne "" (by decide)
  have hdot := hne "." (by decide)
  have hdots := hne ".." (by decide)
  refine ⟨by simp [Module.fileName, h], ?_, hdot⟩
  simp [Path.component?, hempty, hdot, hdots]

theorem fileName_inj {a b : String} (h : Module.fileName a = Module.fileName b) : a = b := by
  have hchars := congrArg String.toList h
  simp only [Module.fileName, String.toList_append, List.append_cancel_right_eq] at hchars
  exact String.toList_inj.mp hchars

namespace Generator

/-- The file of a language's module. -/
def moduleFile (g : Generator) (a : Assembly) : OutputFile :=
  ⟨g.outputPath a.language.shortcode, a.languageModule.text g.runtime⟩

/-- Files of different names have different paths. -/
theorem nodup_components (g : Generator) {names : List String} (h : names.Nodup)
    (hplain : ∀ name ∈ names, '/' ∉ name.toList) :
    (names.map fun name => (g.outputPath name).components).Nodup := by
  refine List.Nodup.map_on (fun a ha b hb heq => fileName_inj ?_) h
  exact (Path.same_join_iff g.outputDir (isPlain_fileName (hplain a ha))
    (isPlain_fileName (hplain b hb))).mp (beq_iff_eq.mpr heq)

end Generator

namespace Compilation

variable {g : Generator} {oracle : (r : Request) → r.Answer} {limit : Nat} {catalog : Catalog}
  (c : Compilation g oracle limit catalog)
include c

/-- The base language has come first; all others extend some language. -/
theorem exists_cons :
    ∃ first rest, c.assemblies = first :: rest ∧ first.language.parent = none ∧
      ∀ a ∈ rest, a.language.parent ≠ none := by
  obtain ⟨l, ls, hcons, -, hparent, hothers⟩ := c.ordered.exists_cons
  obtain ⟨first, rest, hassemblies, rfl, rfl⟩ := List.map_eq_cons_iff.mp hcons
  exact ⟨first, rest, hassemblies, hparent, fun a ha => hothers _ (List.mem_map_of_mem ha)⟩

/-- **The files of a catalog**: the module of the base language, what it publishes, and the modules
of the other languages. -/
theorem files_eq {first : Assembly} {rest : List Assembly} (hcons : c.assemblies = first :: rest)
    (hfirst : first.language.parent = none) (hrest : ∀ a ∈ rest, a.language.parent ≠ none) :
    catalog.files =
      g.moduleFile first ::
        ⟨g.outputPath Module.sectionsModule, Module.sectionsInterface c.base.sections⟩ ::
        ⟨g.outputPath Module.languageModule,
          Module.languageInterface g.runtime c.base.sections⟩ ::
        rest.map g.moduleFile := by
  have hbase := (c.publishes first (hcons ▸ List.mem_cons_self) hfirst).2
  have hothers : ∀ a ∈ rest, g.files a = [g.moduleFile a] := fun a ha => by
    have hfits := c.fitsIn a (hcons ▸ List.mem_cons_of_mem _ ha) (hrest a ha)
    simp only [Generator.files, Assembly.published?, hfits, Generator.moduleFile]
  have hfiles : catalog.files = c.assemblies.flatMap g.files :=
    congrArg Catalog.files c.catalog_eq
  rw [hfiles, hcons, List.flatMap_cons, List.flatMap_congr hothers, ← List.map_eq_flatMap]
  simp only [Generator.files, hbase, Generator.moduleFile, List.cons_append, List.nil_append]

/-- The shortcode of a language that has been compiled from valid settings. -/
theorem isValidShortcode (hvalid : g.settings.IsValid) {a : Assembly} (ha : a ∈ c.assemblies) :
    isValidShortcode a.language.shortcode = true :=
  c.ordered.isValidShortcode hvalid _ (List.mem_map_of_mem ha)

/-- The parent of a language has been compiled. -/
theorem exists_parent {a : Assembly} (ha : a ∈ c.assemblies) {parent : String}
    (hparent : a.language.parent = some parent) :
    ∃ p ∈ c.assemblies, p.language.shortcode = parent := by
  obtain ⟨rank, hrank⟩ := c.ordered.parentsFirst.exists_rank
  obtain ⟨l, hl, hshortcode, -⟩ := (hrank _ (List.mem_map_of_mem ha)).2 parent hparent
  obtain ⟨p, hp, rfl⟩ := List.mem_map.mp hl
  exact ⟨p, hp, hshortcode⟩

/-- The names of the modules: the shortcodes of the languages, and the two shared ones. -/
def names (_ : Compilation g oracle limit catalog) : List String :=
  g.settings.languages.map LanguageEntry.shortcode ++
    [Module.sectionsModule, Module.languageModule]

/-- **There is one file for each name.** -/
theorem perm_paths : (catalog.files.map OutputFile.path).Perm (c.names.map g.outputPath) := by
  obtain ⟨first, rest, hcons, hfirst, hrest⟩ := c.exists_cons
  have hpaths : catalog.files.map OutputFile.path =
      (first.language.shortcode :: Module.sectionsModule :: Module.languageModule ::
        rest.map (·.language.shortcode)).map g.outputPath := by
    rw [c.files_eq hcons hfirst hrest]
    simp only [List.map_cons, List.map_map, Function.comp_def, Generator.moduleFile]
  have hshortcodes : (first.language.shortcode :: rest.map (·.language.shortcode)).Perm
      (g.settings.languages.map LanguageEntry.shortcode) := by
    have hperm := c.ordered.perm_shortcodes
    rwa [List.map_map, hcons] at hperm
  rw [hpaths]
  refine List.Perm.map _ (List.Perm.trans ?_ (hshortcodes.append_right _))
  -- the shared modules stand behind the first language, and not at the end
  have hshared : ([Module.sectionsModule, Module.languageModule] ++
      rest.map (·.language.shortcode)).Perm _ := List.perm_append_comm
  exact hshared.cons _

theorem slash_not_mem_names (hvalid : g.settings.IsValid) :
    ∀ name ∈ c.names, '/' ∉ name.toList := by
  intro name hname
  rcases List.mem_append.mp hname with hname | hname
  · obtain ⟨entry, hentry, rfl⟩ := List.mem_map.mp hname
    exact not_mem_of_isValidShortcode (hvalid.isValidShortcode entry hentry) (by decide)
  · rcases List.mem_cons.mp hname with rfl | hname
    · decide
    · rw [List.mem_singleton.mp hname]
      decide

/-- A shortcode has no dot, but the names of the shared modules do. -/
theorem nodup_names (hvalid : g.settings.IsValid) : c.names.Nodup := by
  have hshared : ∀ name ∈ [Module.sectionsModule, Module.languageModule], '.' ∈ name.toList := by
    decide
  refine List.nodup_append.mpr ⟨?_, by decide, ?_⟩
  · rw [← c.ordered.perm_shortcodes.nodup_iff]
    exact c.ordered.nodup
  · rintro name hname _ hmem rfl
    obtain ⟨entry, hentry, rfl⟩ := List.mem_map.mp hname
    exact not_mem_of_isValidShortcode (hvalid.isValidShortcode entry hentry) (by decide)
      (hshared _ hmem)

/-- **No file is written over another.** -/
theorem nodup_paths (hvalid : g.settings.IsValid) :
    (catalog.files.map fun f => f.path.components).Nodup := by
  have hnodup := g.nodup_components (c.nodup_names hvalid) (c.slash_not_mem_names hvalid)
  have hperm := c.perm_paths.map Path.components
  simp only [List.map_map, Function.comp_def] at hperm
  exact hperm.nodup_iff.mpr hnodup

/-! ### The statements in the files -/

/-- What stands bare in the module of a language is on one line, and the values of its sections are
written in indented lines. -/
theorem partsAre_isOneLine (hvalid : g.settings.IsValid) {a : Assembly} (ha : a ∈ c.assemblies) :
    a.languageModule.PartsAre Text.IsOneLine Text.IsOneLine
      (Text.IsWritten fun line => 0 < line.depth) where
  helper _ := by decide
  interface := by decide
  identifier := Module.isOneLine_moduleIdentifier (c.isValidShortcode hvalid ha)
  parent parent hparent := by
    obtain ⟨p, hp, rfl⟩ := c.exists_parent ha hparent
    exact Module.isOneLine_moduleIdentifier (c.isValidShortcode hvalid hp)
  value := by
    obtain ⟨files, -, hholds⟩ := c.holds a ha
    exact hholds.forall_own fun _ _ hgives => hgives.isWritten.1.imp fun _ => And.left

/-- So are the interfaces of the published sections. -/
theorem isWritten_interface :
    ∀ s ∈ c.base.sections, Text.IsWritten (fun line => 0 < line.depth) s.interface := by
  obtain ⟨first, rest, hcons, hfirst, -⟩ := c.exists_cons
  have hbase : first ∈ c.assemblies := hcons ▸ List.mem_cons_self
  obtain ⟨files, -, hholds⟩ := c.holds first hbase
  exact hholds.forall_published (c.publishes first hbase hfirst).2 fun _ _ hgives =>
    hgives.isWritten.2

/-- At the path of a file there is that file alone, and its statements are read from it. -/
theorem has_of_mem (hvalid : g.settings.IsValid) {path : Path} {text : String}
    {statements : List Module.Statement} (hmem : (⟨path, text⟩ : OutputFile) ∈ catalog.files)
    (hlaid : Module.LaidOut statements text) (hlines : ∀ s ∈ statements, s.HasLines) :
    catalog.Has path text statements := by
  have hfilter := filter_eq_singleton (c.nodup_paths hvalid) hmem
  simp only [Catalog.Has, Path.same]
  exact ⟨hfilter, hlaid, hlaid.spells hlines⟩

theorem has_languageModule (hvalid : g.settings.IsValid) {a : Assembly}
    (ha : a ∈ c.assemblies) :
    catalog.Has (g.outputPath a.language.shortcode) (a.languageModule.text g.runtime)
      (a.languageModule.statements g.runtime) := by
  obtain ⟨first, rest, hcons, hfirst, hrest⟩ := c.exists_cons
  refine c.has_of_mem hvalid ?_ (a.languageModule.laidOut_text g.runtime)
    ((c.partsAre_isOneLine hvalid ha).statements Module.isOfNames_isOneLine g.runtime)
  rw [c.files_eq hcons hfirst hrest]
  rcases List.mem_cons.mp (hcons ▸ ha) with rfl | ha
  · exact List.mem_cons_self
  · exact List.mem_cons_of_mem _ (List.mem_cons_of_mem _ (List.mem_cons_of_mem _
      (List.mem_map_of_mem (f := g.moduleFile) ha)))

theorem has_languageInterface (hvalid : g.settings.IsValid) :
    catalog.Has (g.outputPath Module.languageModule)
      (Module.languageInterface g.runtime c.base.sections)
      (Module.languageImports g.runtime ++ [Module.languageRecord c.base.sections]) := by
  obtain ⟨first, rest, hcons, hfirst, hrest⟩ := c.exists_cons
  have hnames := Module.isOfNames_isOneLine
  refine c.has_of_mem hvalid ?_ (Module.laidOut_languageInterface g.runtime _)
    (List.forall_mem_append.mpr ⟨Module.partsAre_languageImports hnames (by decide),
      List.forall_mem_singleton.mpr (Module.partsAre_languageRecord hnames)⟩)
  rw [c.files_eq hcons hfirst hrest]
  exact List.mem_cons_of_mem _ (List.mem_cons_of_mem _ List.mem_cons_self)

end Compilation

end Phrasebook
