import Phrasebook.Catalog.Walk
import Phrasebook.Language.Order
import Phrasebook.Settings.Project

/-!
# Catalog — Generator

From a project to its generated modules.  All languages are compiled before anything is written,
the base language first; then the output directory is removed, created anew and filled.
-/

namespace Phrasebook

/-- A file to be written. -/
structure OutputFile where
  path : Path
  contents : String
  deriving DecidableEq

/-- How many sections a language has itself, and how many it inherits. -/
structure LanguageReport where
  shortcode : String
  own : Nat
  inherited : Nat
  deriving DecidableEq

/-- The files of all languages, and a report on each language. -/
structure Catalog where
  files : List OutputFile
  languages : List LanguageReport
  deriving DecidableEq

/-- What a run has done. -/
structure Report where
  languages : List LanguageReport
  files : List Path
  /-- The files have been written. -/
  written : Bool
  deriving DecidableEq

/-- What it takes to generate the modules of a project. -/
structure Generator where
  settings : Settings
  glob : Glob
  runtime : Module.Runtime
  translationsDir : Path
  outputDir : Path

/-- The file at a path. -/
def Catalog.file? (catalog : Catalog) (path : Path) : Option OutputFile :=
  catalog.files.find? fun f => f.path.same path

namespace Generator

/-- A generator for settings, if their file pattern is one. -/
def ofSettings? (settings : Settings) (runtime : Module.Runtime)
    (translationsDir outputDir : Path) : Except CatalogFault Generator :=
  match Glob.ofPattern? settings.filePattern with
  | .ok glob => .ok ⟨settings, glob, runtime, translationsDir, outputDir⟩
  | .error e => .error (.pattern e)

/-- A generator for a project. -/
def ofProject? (p : Project) : Except CatalogFault Generator :=
  ofSettings? p.settings p.settings.runtime p.translationsDir p.outputDir

/-- The path of a generated module. -/
def outputPath (g : Generator) (name : String) : Path :=
  g.outputDir.join (Module.fileName name)

/-- The sections of a language; a language that extends another needs no directory. -/
def sections (g : Generator) (limit : Nat) (l : Language) : Job (List SectionFile) := do
  let root := g.translationsDir.join l.shortcode
  if ← Job.directoryExists root then
    (⟨g.glob, l.shortcode⟩ : Walk).load limit root .root
  else if l.isBase then
    Job.fail (.missingBaseTranslations l.shortcode root)
  else
    Job.tell .warn ("No translation directory " ++ root.text ++ ", inheriting every section")
    return []

/-- A language before its sections are added; only the base language can do without a base. -/
def start (g : Generator) (base : Option BaseCatalog) (l : Language) :
    Except CatalogFault Assembly :=
  match l.parent, base with
  | none, _ => .ok (.forBase l)
  | some _, some base => .ok (.forDerived l base)
  | some _, none => .error (.language (.missingBaseLanguage g.settings.baseLanguage))

/-- A language with its sections. -/
def assembly (g : Generator) (limit : Nat) (base : Option BaseCatalog) (l : Language) :
    Job Assembly := do
  Job.tell .info ("Compiling language " ++ l.shortcode)
  let files ← g.sections limit l
  let start ← Job.ofExcept (g.start base l)
  start.addEach files

/-- The files that a language gives: its module, and the shared files if it is the base. -/
def files (g : Generator) (a : Assembly) : List OutputFile :=
  ⟨g.outputPath a.language.shortcode, a.languageModule.text g.runtime⟩ ::
    (match a.published? with
     | none => []
     | some base =>
         [⟨g.outputPath Module.sectionsModule, Module.sectionsInterface base.sections⟩,
          ⟨g.outputPath Module.languageModule,
            Module.languageInterface g.runtime base.sections⟩])

/-- The report on a language. -/
def report (a : Assembly) : LanguageReport :=
  ⟨a.language.shortcode, a.ownCount, a.inheritedCount⟩

/-- Compiles languages one after the other; each sees what the base language has published. -/
def assemblies (g : Generator) (limit : Nat) (base : Option BaseCatalog) :
    List Language → Job (List Assembly)
  | [] => pure []
  | l :: ls => do
      let a ← g.assembly limit base l
      let rest ← g.assemblies limit (a.published?.or base) ls
      return a :: rest

/-- Compiles all languages, without writing anything; directories may be nested less deep than a
limit. -/
def compile (g : Generator) (limit : Nat) : Job Catalog := do
  let set ← Job.ofExcept
    ((LanguageSet.ofEntries? g.settings.languages g.settings.baseLanguage).mapError .language)
  let assemblies ← g.assemblies limit none set.languages
  return ⟨assemblies.flatMap g.files, assemblies.map report⟩

/-- Writes files in order. -/
def writeFiles : List OutputFile → Job Unit
  | [] => pure ()
  | f :: fs => do
      Job.writeText f.path f.contents
      writeFiles fs

/-- Replaces the output directory by one with the given files. -/
def write (g : Generator) (files : List OutputFile) : Job Unit := do
  Job.tell .debug ("Resetting " ++ g.outputDir.text)
  Job.removeAll g.outputDir
  Job.createAll g.outputDir
  writeFiles files

/-- Compiles all languages and, unless it is a dry run, replaces the output. -/
def run (g : Generator) (limit : Nat) (dryRun : Bool) : Job Report := do
  let catalog ← g.compile limit
  if dryRun then
    Job.tell .info "Dry run, nothing written"
  else
    g.write catalog.files
    Job.tell .info ("Catalog generated in " ++ g.outputDir.text)
  return ⟨catalog.languages, catalog.files.map OutputFile.path, !dryRun⟩

end Generator

end Phrasebook
