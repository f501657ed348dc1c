import Phrasebook.Module.Shared

/-!
# Module — Language

The module of one language.  It holds the values of the sections that the language has itself,
takes those that it lacks from the module of its parent, and exports a record of all of them.
-/

namespace Phrasebook.Module

/-- A section that a language has itself. -/
structure OwnSection where
  identity : Section.Identity
  /-- The body of its constant. -/
  value : String
  /-- The body of its interface. -/
  interface : String
  /-- The value calls `interpolate`. -/
  interpolates : Bool
  deriving DecidableEq

/-- Where the value of a field comes from. -/
inductive Origin where
  | own
  | inherited
  deriving DecidableEq

/-- A section in the record of a language. -/
structure Field where
  identity : Section.Identity
  origin : Origin
  deriving DecidableEq

/-- What the module of a language says. -/
structure LanguageModule where
  shortcode : String
  name : String
  /-- The shortcode of the parent; only the base language has none. -/
  parent : Option String
  /-- The sections of the language itself, in the order of its files. -/
  own : List OwnSection
  /-- All sections, in the order of the base language. -/
  fields : List Field
  deriving DecidableEq

namespace LanguageModule

/-- The identifier of the module and its record. -/
def identifier (m : LanguageModule) : String :=
  moduleIdentifier m.shortcode

/-- The fields that are taken from the parent. -/
def inheritedFields (m : LanguageModule) : List Field :=
  m.fields.filter fun f => f.origin = .inherited

/-- One of the language's own sections calls `interpolate`. -/
def interpolates (m : LanguageModule) : Bool :=
  m.own.any OwnSection.interpolates

/-- The imports: `interpolate` only if it is called, and the parent's module if there is one. -/
def imports (m : LanguageModule) (runtime : Runtime) : List Statement :=
  (if m.interpolates then [.importName "interpolate" runtime.interpolateModule] else []) ++
    [.importName "ILanguage" (sibling languageModule),
     .importAll "Sections" (sibling sectionsModule)] ++
    (match m.parent with
     | some parent => [.importAll (moduleIdentifier parent) (sibling parent)]
     | none => [])

/-- The constants of the language's own sections. -/
def values (m : LanguageModule) : List Statement :=
  m.own.map fun s => .sectionValue s.identity.variableName s.identity.interfaceName s.value

/-- The constants that pass on sections of the parent. -/
def aliases (m : LanguageModule) : List Statement :=
  match m.parent with
  | none => []
  | some parent =>
      m.inheritedFields.map fun f =>
        .sectionAlias f.identity.variableName f.identity.interfaceName (moduleIdentifier parent)

/-- The value that the record has for a field. -/
def reference (m : LanguageModule) (f : Field) : String :=
  match f.origin, m.parent with
  | .inherited, some parent => moduleIdentifier parent ++ "." ++ f.identity.variableName
  | _, _ => f.identity.variableName

/-- The fields of the record beside the metadata: key and value. -/
def recordFields (m : LanguageModule) : List (String × String) :=
  m.fields.map fun f => (f.identity.key, m.reference f)

/-- The record of the language. -/
def record (m : LanguageModule) : Statement :=
  .record m.identifier m.shortcode m.name m.recordFields

/-- All statements of the module in order. -/
def statements (m : LanguageModule) (runtime : Runtime) : List Statement :=
  m.imports runtime ++ m.values ++ m.aliases ++ [m.record, .exportDefault m.identifier]

/-- The block of the inherited sections, if there are any. -/
def aliasesText (m : LanguageModule) : String :=
  if m.aliases.isEmpty then "" else "\n// Inherited sections\n\n" ++ statementsText m.aliases

/-- The file of the module. -/
def text (m : LanguageModule) (runtime : Runtime) : String :=
  banner ++ "\n" ++ statementsText (m.imports runtime) ++
    "\n// Sections\n" ++ spacedText m.values ++ m.aliasesText ++
    "\n// Language\n\n" ++ m.record.text ++ "\n" ++ (Statement.exportDefault m.identifier).text

end LanguageModule

end Phrasebook.Module
