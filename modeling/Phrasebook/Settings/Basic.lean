import Phrasebook.Glob.Basic
import Phrasebook.Json.Value
import Phrasebook.Module.Shared

/-!
# Settings — Basic

What a project says about its catalog: where the translations are, where the modules go, and which
languages there are.  `problems` lists all that is wrong with settings on their own; whether the
languages fit together is decided when they are put in order.
-/

namespace Phrasebook

/-- A language as it is configured. -/
structure LanguageEntry where
  shortcode : String
  /-- The display name. -/
  name : Option String
  /-- The shortcode of the language that it extends. -/
  parent : Option String
  deriving DecidableEq

/-- The settings of a project. -/
structure Settings where
  /-- Holds one directory of translations per shortcode. -/
  translationsDir : String
  /-- Is replaced by every run. -/
  outputDir : String
  /-- The shortcode of the only language that extends none. -/
  baseLanguage : String
  /-- Picks translation files by name. -/
  filePattern : String
  runtime : Module.Runtime
  languages : List LanguageEntry
  deriving DecidableEq

/-- The settings of a project that says nothing. -/
def Settings.default : Settings where
  translationsDir := "src/translations"
  outputDir := "src/values"
  baseLanguage := "en-gb"
  filePattern := "*.json"
  runtime := .default
  languages := [⟨"en-gb", some "English (GB)", none⟩]

/-- What is wrong with settings. -/
inductive SettingsProblem where
  | emptyTranslationsDir
  | emptyOutputDir
  | emptyBaseLanguage
  | emptyPattern
  | invalidPattern (error : GlobError)
  | noLanguages
  | invalidShortcode (index : Nat) (shortcode : String)
  deriving DecidableEq

namespace SettingsProblem

/-- The field that a problem concerns. -/
def field : SettingsProblem → String
  | .emptyTranslationsDir => "translationsDir"
  | .emptyOutputDir => "outputDir"
  | .emptyBaseLanguage => "baseLanguage"
  | .emptyPattern => "translationFilePattern"
  | .invalidPattern _ => "translationFilePattern"
  | .noLanguages => "languages"
  | .invalidShortcode index _ => "languages[" ++ toString index ++ "].shortcode"

/-- The text of a problem. -/
def message : SettingsProblem → String
  | .emptyTranslationsDir => "The directory cannot be empty. Example: \"src/translations\""
  | .emptyOutputDir => "The directory cannot be empty. Example: \"src/values\""
  | .emptyBaseLanguage => "The base language cannot be empty. Example: \"en-gb\""
  | .emptyPattern => "The pattern cannot be empty. Example: \"*.json\""
  | .invalidPattern error =>
      "Invalid glob pattern '" ++ error.pattern ++ "': " ++ error.message
  | .noLanguages =>
      "At least one language is required. Example: [\x7b\"shortcode\": \"en-gb\", \"name\": \"English (GB)\"\x7d]"
  | .invalidShortcode _ shortcode =>
      "Invalid shortcode '" ++ shortcode ++ "'. Use letters, digits and dashes, e.g. \"en-gb\""

/-- The problem with the field that it concerns. -/
def fullMessage (problem : SettingsProblem) : String :=
  "Configuration error in '" ++ problem.field ++ "': " ++ problem.message

end SettingsProblem

/-- Shortcodes start with a letter, hold letters, digits and dashes, and do not end with a dash. -/
def isValidShortcode (shortcode : String) : Bool :=
  match shortcode.toList with
  | [] => false
  | c :: cs =>
      c.isAlpha && (c :: cs).all (fun d => d.isAlphanum || d == '-') &&
        (c :: cs).getLast? != some '-'

/-- The problem with a file pattern. -/
def patternProblem? (pattern : String) : Option SettingsProblem :=
  if pattern = "" then some .emptyPattern
  else match Glob.ofPattern? pattern with
    | .ok _ => none
    | .error e => some (.invalidPattern e)

/-- The languages with malformed shortcodes, counted from an index on. -/
def shortcodeProblems : Nat → List LanguageEntry → List SettingsProblem
  | _, [] => []
  | i, l :: ls =>
      if isValidShortcode l.shortcode then shortcodeProblems (i + 1) ls
      else .invalidShortcode i l.shortcode :: shortcodeProblems (i + 1) ls

namespace Settings

/-- All problems, in the order of the fields. -/
def problems (s : Settings) : List SettingsProblem :=
  (if s.translationsDir = "" then [.emptyTranslationsDir] else []) ++
    (if s.outputDir = "" then [.emptyOutputDir] else []) ++
    (if s.baseLanguage = "" then [.emptyBaseLanguage] else []) ++
    (patternProblem? s.filePattern).toList ++
    (if s.languages.isEmpty then [.noLanguages] else []) ++
    shortcodeProblems 0 s.languages

/-- Has no problems. -/
def IsValid (s : Settings) : Prop :=
  s.problems = []

instance (s : Settings) : Decidable s.IsValid :=
  inferInstanceAs (Decidable (s.problems = []))

end Settings

end Phrasebook
