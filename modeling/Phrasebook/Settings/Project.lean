import Phrasebook.Path
import Phrasebook.Settings.Document

/-!
# Settings — Project

A project: the directory it lives in and the settings that apply to it, which are valid at all
times.  New settings replace the old ones only if nothing is wrong with them.
-/

namespace Phrasebook

/-- Why settings were not taken. -/
inductive ConfigError where
  /-- They have problems. -/
  | invalid (problems : List SettingsProblem)
  /-- The file cannot be read, for the reason that the storage gives. -/
  | unreadable (reason : String)
  /-- The text holds no settings. -/
  | malformed (error : Json.Error)
  deriving DecidableEq

/-- Problems as a numbered list. -/
def numbered : Nat → List SettingsProblem → List String
  | _, [] => []
  | i, p :: ps =>
      ("  " ++ toString i ++ ". " ++ p.field ++ " - " ++ p.message) :: numbered (i + 1) ps

/-- The text of an error. -/
def ConfigError.message : ConfigError → String
  | .invalid problems =>
      "Configuration validation failed:\n" ++ String.intercalate "\n" (numbered 1 problems)
  | .unreadable reason => "Failed to load configuration file: " ++ reason
  | .malformed error => "Failed to parse configuration: " ++ error.message

/-- Nothing is wrong with the settings of a project that says nothing. -/
theorem Settings.default_isValid : Settings.default.IsValid := by
  decide +kernel

/-- A project with its settings. -/
structure Project where
  root : Path
  settings : Settings
  settings_isValid : settings.IsValid

/-- The file with the settings of a project. -/
def settingsFile : String := ".i18n-catalog.json"

/-- What was found where settings were looked for. -/
inductive SettingsSource where
  /-- There is no file. -/
  | absent
  /-- The file cannot be read. -/
  | unreadable (reason : String)
  /-- The text of the file. -/
  | content (text : String)

namespace Project

/-- A project that has said nothing yet. -/
def new (root : Path) : Project :=
  ⟨root, .default, Settings.default_isValid⟩

/-- The project with other settings. -/
def update (p : Project) (settings : Settings) : Except ConfigError Project :=
  if h : settings.IsValid then .ok ⟨p.root, settings, h⟩ else .error (.invalid settings.problems)

/-- The project with the settings that were found; defaults if there are none. -/
def load (p : Project) : SettingsSource → Except ConfigError Project
  | .absent => p.update .default
  | .unreadable reason => .error (.unreadable reason)
  | .content text =>
      match Settings.ofText? text with
      | .error e => .error (.malformed e)
      | .ok settings => p.update settings

/-- The directory of the translations. -/
def translationsDir (p : Project) : Path :=
  p.root.join p.settings.translationsDir

/-- The directory of the generated modules. -/
def outputDir (p : Project) : Path :=
  p.root.join p.settings.outputDir

end Project

end Phrasebook
