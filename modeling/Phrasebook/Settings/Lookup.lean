import Phrasebook.Settings.Project
import Phrasebook.Storage.Script

/-!
# Settings — Lookup

Where the settings of a project are looked for: in the file that is named, which must be there, or
else in the settings file at the root of the project, which may be missing.
-/

namespace Phrasebook

/-- A path leads nowhere. -/
def StorageError.isAbsence : StorageError → Bool
  | .missing _ => true
  | .malformedPath => true
  | .system .noEntry => true
  | .system .notDirectory => true
  | .system .tooManyLinks => true
  | .system .nameTooLong => true
  | _ => false

namespace Project

/-- The note that a settings file is read. -/
def tellReading (path : Path) : Script Unit :=
  Script.tell .debug ("Loading settings from " ++ path.text)

/-- Looks for the settings of a project. -/
def lookup (p : Project) : Option String → Script SettingsSource
  | some file => do
      let path := p.root.join file
      tellReading path
      match ← Script.request (.readText path) with
      | .ok text => return .content text
      | .error e => return .unreadable e.message
  | none => do
      let path := p.root.join settingsFile
      match ← Script.request (.readText path) with
      | .ok text =>
          tellReading path
          return .content text
      | .error e =>
          if e.isAbsence then
            Script.tell .debug ("No settings at " ++ path.text ++ ", using the default ones")
            return .absent
          else
            tellReading path
            return .unreadable e.message

/-- The project with the settings that were found, and a note if it has taken them. -/
def take (p : Project) (source : SettingsSource) : Script (Except ConfigError Project) :=
  match p.load source with
  | .ok loaded => do
      Script.tell .debug "Settings loaded"
      return .ok loaded
  | .error e => return .error e

/-- The project with the settings that are found. -/
def loadFrom (p : Project) (file : Option String) : Script (Except ConfigError Project) := do
  Script.tell .debug ("Loading settings for project " ++ p.root.text)
  let source ← p.lookup file
  p.take source

end Project

end Phrasebook
