import Phrasebook.Catalog.Fault
import Phrasebook.Module.Language
import Phrasebook.Syntax.Body

/-!
# Catalog — Assembly

The module of one language while its sections are added.  The base language publishes the sections
that it has; every other language is checked against them, may have each of them itself, with the
same interface, and inherits those that it does not have.
-/

namespace Phrasebook

/-- A translation file: the section that it holds, where it is, and its payload. -/
structure SectionFile where
  identity : Section.Identity
  path : Path
  payload : Payload

/-- The sections that the base language publishes. -/
structure BaseCatalog where
  shortcode : String
  sections : List Module.CanonicalSection
  deriving DecidableEq

/-- The section with a key. -/
def BaseCatalog.get? (base : BaseCatalog) (key : String) : Option Module.CanonicalSection :=
  base.sections.find? fun s => s.identity.key == key

/-- A section that has been added, and the file that it comes from. -/
structure AcceptedSection where
  own : Module.OwnSection
  path : Path
  deriving DecidableEq

/-- A language and the sections that it has so far. -/
structure Assembly where
  language : Language
  /-- The sections to fit in with; none for the base language. -/
  base : Option BaseCatalog
  /-- The sections in the order in which they were added. -/
  accepted : List AcceptedSection

namespace Section.Identity

/-- One of the two names that the section has in modules. -/
def hasName (id : Identity) (name : String) : Bool :=
  id.variableName == name || id.interfaceName == name

end Section.Identity

/-- The first place at which a key is taken, or else one of the names of an identity. -/
def identityFault? (shortcode : String) (taken : List (Section.Identity × Path))
    (id : Section.Identity) (path : Path) : Option CatalogFault :=
  match taken.find? fun t => t.1.key == id.key with
  | some first => some (.duplicateSection shortcode id.key first.2 path)
  | none =>
      match taken.find? fun t => t.1.hasName id.variableName with
      | some first => some (.duplicateIdentifier shortcode id.variableName first.2 path)
      | none =>
          (taken.find? fun t => t.1.hasName id.interfaceName).map fun first =>
            .duplicateIdentifier shortcode id.interfaceName first.2 path

namespace Assembly

/-- The base language, before any section. -/
def forBase (language : Language) : Assembly :=
  ⟨language, none, []⟩

/-- A language that fits in with the published sections, before any section. -/
def forDerived (language : Language) (base : BaseCatalog) : Assembly :=
  ⟨language, some base, []⟩

/-- The identities that are taken, with their files. -/
def taken (a : Assembly) : List (Section.Identity × Path) :=
  a.accepted.map fun s => (s.own.identity, s.path)

/-- What keeps a section with some interface from fitting in with the published ones. -/
def baseFault? (a : Assembly) (key interface : String) : Option CatalogFault :=
  match a.base with
  | none => none
  | some base =>
      match base.get? key with
      | none => some (.unknownSection a.language.shortcode key)
      | some canonical =>
          if canonical.interface = interface then none
          else some (.shapeMismatch a.language.shortcode key)

/-- Adds a section, or says why it cannot be added. -/
def add (a : Assembly) (file : SectionFile) : Except CatalogFault Assembly :=
  match identityFault? a.language.shortcode a.taken file.identity file.path with
  | some fault => .error fault
  | none =>
      match Syntax.Tree.ofPayload? file.payload with
      | .error fault => .error (.template a.language.shortcode file.identity.key fault)
      | .ok tree =>
          match a.baseFault? file.identity.key tree.interface with
          | some fault => .error fault
          | none =>
              .ok { a with
                accepted := a.accepted ++
                  [⟨⟨file.identity, tree.value, tree.interface, tree.interpolates⟩, file.path⟩] }

/-- Adds sections one after the other. -/
def addAll (a : Assembly) : List SectionFile → Except CatalogFault Assembly
  | [] => .ok a
  | file :: files =>
      match a.add file with
      | .error fault => .error fault
      | .ok next => next.addAll files

/-- Adds sections as `addAll` does, and makes a note of each that has been added. -/
def addEach (a : Assembly) : List SectionFile → Job Assembly
  | [] => pure a
  | file :: files => do
      let next ← Job.ofExcept (a.add file)
      Job.tell .debug
        ("Compiled section " ++ file.identity.key ++ " of " ++ a.language.shortcode)
      next.addEach files

/-- The sections that the language has itself. -/
def own (a : Assembly) : List Module.OwnSection :=
  a.accepted.map AcceptedSection.own

/-- What the language publishes, if it is the base language. -/
def published? (a : Assembly) : Option BaseCatalog :=
  match a.base with
  | some _ => none
  | none => some ⟨a.language.shortcode, a.own.map fun s => ⟨s.identity, s.interface⟩⟩

/-- The sections that the record of the language has. -/
def canonical (a : Assembly) : List Module.CanonicalSection :=
  match a.base with
  | some base => base.sections
  | none => a.own.map fun s => ⟨s.identity, s.interface⟩

/-- The language has the section with a key itself. -/
def hasKey (a : Assembly) (key : String) : Bool :=
  a.accepted.any fun s => s.own.identity.key == key

/-- The fields of the language's record. -/
def fields (a : Assembly) : List Module.Field :=
  a.canonical.map fun s => ⟨s.identity, if a.hasKey s.identity.key then .own else .inherited⟩

/-- The module of the language. -/
def languageModule (a : Assembly) : Module.LanguageModule where
  shortcode := a.language.shortcode
  name := a.language.name
  parent := a.language.parent
  own := a.own
  fields := a.fields

/-- The number of sections that the language has itself. -/
def ownCount (a : Assembly) : Nat :=
  a.own.length

/-- The number of sections that the language inherits. -/
def inheritedCount (a : Assembly) : Nat :=
  a.languageModule.inheritedFields.length

end Assembly

end Phrasebook
