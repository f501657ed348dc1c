import Phrasebook.Language.Basic
import Phrasebook.Payload.File
import Phrasebook.Storage.Script
import Phrasebook.Syntax.Template

/-!
# Catalog — Fault

Everything that can end the compilation of a catalog.  Each fault names the language and, where
there is one, the section or the path that it concerns.
-/

namespace Phrasebook

/-- Why a catalog cannot be compiled. -/
inductive CatalogFault where
  /-- The languages do not fit together. -/
  | language (fault : LanguageFault)
  /-- The pattern for file names is none. -/
  | pattern (error : GlobError)
  /-- The storage refused a request. -/
  | storage (path : Path) (error : StorageError)
  | missingBaseTranslations (shortcode : String) (path : Path)
  /-- A directory or file of the translations gives no words. -/
  | invalidSegment (shortcode : String) (path : Path) (segment : String)
  /-- A translation file holds no payload. -/
  | file (shortcode : String) (path : Path) (fault : FileFault)
  | duplicateSection (shortcode key : String) (first second : Path)
  | duplicateIdentifier (shortcode name : String) (first second : Path)
  /-- A section has an unsound template. -/
  | template (shortcode key : String) (fault : TemplateFault)
  | unknownSection (shortcode key : String)
  | shapeMismatch (shortcode key : String)
  deriving DecidableEq

/-- The language that a fault concerns, as its text mentions it. -/
def inLanguage (shortcode : String) : String :=
  " (language " ++ shortcode ++ ")"

/-- The text of a glob error of the pattern for file names. -/
def GlobError.asFilePattern (e : GlobError) : String :=
  "Invalid translation file pattern '" ++ e.pattern ++ "': " ++ e.message

/-- The text of a fault. -/
def CatalogFault.message : CatalogFault → String
  | .language fault => fault.message
  | .pattern error => error.asFilePattern
  | .storage path error => "I/O error at " ++ path.text ++ ": " ++ error.message
  | .missingBaseTranslations shortcode path =>
      "Base language " ++ shortcode ++ " has no translation directory at " ++ path.text
  | .invalidSegment shortcode path segment =>
      "Invalid path segment '" ++ segment ++ "' at " ++ path.text ++ " in language " ++ shortcode
  | .file shortcode path (.payload .missingPayload) =>
      "No translations found in the file " ++ path.text ++ inLanguage shortcode
  | .file shortcode path (.payload .rootLiteral) =>
      "Found a top-level string value in " ++ path.text ++ inLanguage shortcode
  | .file shortcode path fault =>
      "Invalid translation file " ++ path.text ++ inLanguage shortcode ++ ": " ++ fault.message
  | .duplicateSection shortcode key first second =>
      "Section '" ++ key ++ "' is defined by both " ++ first.text ++ " and " ++ second.text ++
        inLanguage shortcode
  | .duplicateIdentifier shortcode name first second =>
      "Sections at " ++ first.text ++ " and " ++ second.text ++
        " both generate the identifier '" ++ name ++ "'" ++ inLanguage shortcode
  | .template shortcode key ⟨path, .undeclaredPlaceholder text placeholder⟩ =>
      "The translation \"" ++ text ++ "\" at '" ++ path.text ++ "' in section '" ++ key ++ "'" ++
        inLanguage shortcode ++ " requires a value for " ++ placeholder ++
        " but it was not declared"
  | .template shortcode key fault =>
      "Invalid template in section '" ++ key ++ "'" ++ inLanguage shortcode ++ ": " ++ fault.message
  | .unknownSection shortcode key =>
      "Section '" ++ key ++ "' of language " ++ shortcode ++
        " does not exist in the base language"
  | .shapeMismatch shortcode key =>
      "Section '" ++ key ++ "' of language " ++ shortcode ++
        " does not match the base language's shape"

/-- A part of the compilation: a script that may end with a fault. -/
abbrev Job (α : Type) : Type :=
  ExceptT CatalogFault Script α

namespace Job

variable {α : Type}

/-- Ends with a fault. -/
def fail (fault : CatalogFault) : Job α :=
  ExceptT.mk (pure (.error fault))

/-- A value, or the fault in its place. -/
def ofExcept (value : Except CatalogFault α) : Job α :=
  ExceptT.mk (pure value)

/-- Makes a note. -/
def tell (level : Level) (text : String) : Job Unit :=
  ExceptT.lift (Script.tell level text)

/-- Asks whether a directory is there. -/
def directoryExists (path : Path) : Job Bool :=
  ExceptT.lift (Script.request (.directoryExists path))

/-- An answer of the storage about a path, its refusal as a fault. -/
def answered (path : Path) (script : Script (Except StorageError α)) : Job α :=
  ExceptT.mk (script.bind fun reply => .done (reply.mapError (.storage path)))

/-- The names of the directories in a directory. -/
def listDirectories (path : Path) : Job (List String) :=
  answered path (Script.request (.listDirectories path))

/-- The names of the files in a directory. -/
def listFiles (path : Path) : Job (List String) :=
  answered path (Script.request (.listFiles path))

/-- The text of a file. -/
def readText (path : Path) : Job String :=
  answered path (Script.request (.readText path))

/-- Writes a file. -/
def writeText (path : Path) (contents : String) : Job Unit :=
  answered path (Script.request (.writeText path contents))

/-- Removes a directory with everything in it. -/
def removeAll (path : Path) : Job Unit :=
  answered path (Script.request (.removeAll path))

/-- Creates a directory, and those above it that are missing. -/
def createAll (path : Path) : Job Unit :=
  answered path (Script.request (.createAll path))

/-- What a job gives for each item of a list, all together. -/
def collect {ι : Type} (job : ι → Job (List α)) : List ι → Job (List α)
  | [] => pure []
  | i :: is => do
      let xs ← job i
      let ys ← collect job is
      return xs ++ ys

end Job

end Phrasebook
