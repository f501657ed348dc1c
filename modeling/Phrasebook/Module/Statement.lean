import Phrasebook.Source

/-!
# Module — Statement

The statements of generated modules.  `text` writes one of them; `binds?` and `exports?` say which
name it brings into the module and which it offers to others.
-/

namespace Phrasebook.Module

/-- A top-level statement. -/
inductive Statement where
  /-- Imports one export of a module. -/
  | importName (name source : String)
  /-- Imports a module as an object of its exports. -/
  | importAll (name source : String)
  /-- Exports a section's value, typed by its interface; `body` holds the lines between the
  braces. -/
  | sectionValue (constant interface body : String)
  /-- Exports the value that another module has for a section. -/
  | sectionAlias (constant interface parent : String)
  /-- Exports the record of a language: its metadata, and a reference under each key. -/
  | record (name shortcode title : String) (fields : List (String × String))
  /-- Makes a name the module's main export. -/
  | exportDefault (name : String)
  /-- Exports the interface of a section. -/
  | sectionInterface (name body : String)
  /-- Exports the interface of the language records: under each key a section's interface. -/
  | recordInterface (name metadata : String) (fields : List (String × String))
  deriving DecidableEq

/-- A line without indentation, as text. -/
def line (depth : Nat) (content : String) : String :=
  (⟨depth, content⟩ : Line).text

/-- The interface of a section, as other modules refer to it. -/
def sectionType (interface : String) : String :=
  "Sections." ++ interface

namespace Statement

/-- The lines of a statement. -/
def text : Statement → String
  | .importName name source =>
      line 0 ("import \x7b " ++ name ++ " \x7d from " ++ Text.quote source ++ ";")
  | .importAll name source =>
      line 0 ("import * as " ++ name ++ " from " ++ Text.quote source ++ ";")
  | .sectionValue constant interface body =>
      line 0 ("export const " ++ constant ++ ": " ++ sectionType interface ++ " = \x7b") ++ body ++
        line 0 "\x7d;"
  | .sectionAlias constant interface parent =>
      line 0 ("export const " ++ constant ++ ": " ++ sectionType interface ++ " = " ++ parent ++
        "." ++ constant ++ ";")
  | .record name shortcode title fields =>
      line 0 ("export const " ++ name ++ ": ILanguage = \x7b") ++
        line 1 "metadata: \x7b" ++
        line 2 ("shortcode: " ++ Text.quote shortcode ++ ",") ++
        line 2 ("name: " ++ Text.quote title ++ ",") ++
        line 1 "\x7d," ++
        concat (fields.map fun f => line 1 (Text.quote f.1 ++ ": " ++ f.2 ++ ",")) ++
        line 0 "\x7d;"
  | .exportDefault name => line 0 ("export default " ++ name ++ ";")
  | .sectionInterface name body =>
      line 0 ("export interface " ++ name ++ " \x7b") ++ body ++ line 0 "\x7d"
  | .recordInterface name metadata fields =>
      line 0 ("export interface " ++ name ++ " \x7b") ++
        line 1 ("metadata: " ++ metadata ++ ";") ++
        concat (fields.map fun f => line 1 (Text.quote f.1 ++ ": " ++ f.2 ++ ";")) ++
        line 0 "\x7d"

/-- The name that a statement introduces at the top of its module. -/
def binds? : Statement → Option String
  | .importName name _ => some name
  | .importAll name _ => some name
  | .sectionValue constant _ _ => some constant
  | .sectionAlias constant _ _ => some constant
  | .record name _ _ _ => some name
  | .exportDefault _ => none
  | .sectionInterface name _ => some name
  | .recordInterface name _ _ => some name

/-- The section constant that a statement exports, with its interface. -/
def sectionExport? : Statement → Option (String × String)
  | .sectionValue constant interface _ => some (constant, interface)
  | .sectionAlias constant interface _ => some (constant, interface)
  | _ => none

end Statement

/-- The comment at the top of every generated file. -/
def banner : String :=
  "// ********************************\n// This file is generated by a tool\n// ********************************\n"

/-- The texts of statements one after the other. -/
def statementsText (statements : List Statement) : String :=
  concat (statements.map Statement.text)

/-- The texts of statements with an empty line before each. -/
def spacedText (statements : List Statement) : String :=
  concat (statements.map fun s => "\n" ++ s.text)

end Phrasebook.Module
