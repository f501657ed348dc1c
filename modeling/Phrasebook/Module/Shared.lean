import Phrasebook.Module.Statement
import Phrasebook.Section.Identity

/-!
# Module — Shared

The two files that all languages share: the interfaces of the sections of the base language, and
the interface of the language records, with one field per section.
-/

namespace Phrasebook.Module

/-- A section that the base language publishes: its identity and the body of its interface. -/
structure CanonicalSection where
  identity : Section.Identity
  interface : String
  deriving DecidableEq

/-- The modules of the consuming project that generated modules import from. -/
structure Runtime where
  /-- Exports the function `interpolate`. -/
  interpolateModule : String
  /-- Exports the type `ILanguageMetadata`. -/
  metadataModule : String
  deriving DecidableEq

/-- The modules that are imported unless others are named. -/
def Runtime.default : Runtime :=
  ⟨"../translation-utils", "../types/language-metadata.interface"⟩

/-- The name of the module with the interfaces of the sections. -/
def sectionsModule : String := "sections.interface"

/-- The name of the module with the interface of the language records. -/
def languageModule : String := "language.interface"

/-- The path by which a generated module names another. -/
def sibling (name : String) : String :=
  "./" ++ name

/-- The file of a generated module. -/
def fileName (name : String) : String :=
  name ++ ".ts"

/-- The identifier that a language's module and record are bound to: its shortcode without
dashes. -/
def moduleIdentifier (shortcode : String) : String :=
  String.ofList (shortcode.toList.filter (· != '-'))

/-- The declarations of the sections' interfaces. -/
def sectionInterfaces (sections : List CanonicalSection) : List Statement :=
  sections.map fun s => .sectionInterface s.identity.interfaceName s.interface

/-- The file with the interfaces of the sections. -/
def sectionsInterface (sections : List CanonicalSection) : String :=
  banner ++ "\n// Sections\n" ++ spacedText (sectionInterfaces sections)

/-- The fields of the language records beside the metadata: key and type. -/
def interfaceFields (sections : List CanonicalSection) : List (String × String) :=
  sections.map fun s => (s.identity.key, sectionType s.identity.interfaceName)

/-- The file with the interface of the language records. -/
def languageInterface (runtime : Runtime) (sections : List CanonicalSection) : String :=
  banner ++ "\n" ++
    statementsText
      [.importName "ILanguageMetadata" runtime.metadataModule,
       .importAll "Sections" (sibling sectionsModule)] ++
    "\n// Language\n\n" ++
    (Statement.recordInterface "ILanguage" "ILanguageMetadata" (interfaceFields sections)).text

end Phrasebook.Module
