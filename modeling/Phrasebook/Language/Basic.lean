import Phrasebook.Settings.Basic
import Phrasebook.Text.Blank

/-!
# Language — Basic

The configured languages, once they are known to fit together.  Each language has a shortcode and
a name of its own, and all but the base language extend another.
-/

namespace Phrasebook

/-- A language that has passed its own checks. -/
structure Language where
  shortcode : String
  name : String
  /-- The shortcode of the language that it extends; only the base language has none. -/
  parent : Option String
  deriving DecidableEq

/-- Extends no other language. -/
def Language.isBase (l : Language) : Bool :=
  l.parent.isNone

/-- Why configured languages do not fit together. -/
inductive LanguageFault where
  | duplicateShortcode (shortcode : String)
  | missingName (shortcode : String)
  | duplicateName (shortcode name first : String)
  | illegalParent (shortcode parent : String)
  | missingParent (shortcode base : String)
  | missingBaseLanguage (shortcode : String)
  | unknownParent (shortcode parent : String)
  | inheritanceCycle (shortcodes : List String)
  deriving DecidableEq

/-- The text of a fault. -/
def LanguageFault.message : LanguageFault → String
  | .duplicateShortcode shortcode => "Language " ++ shortcode ++ " is configured more than once"
  | .missingName shortcode => "Language " ++ shortcode ++ " needs a name"
  | .duplicateName shortcode name first =>
      "Language " ++ shortcode ++ " needs a distinct name, but " ++ name ++
        " has already been used by " ++ first
  | .illegalParent shortcode parent =>
      "Language " ++ shortcode ++ " is the base language and cannot extend " ++ parent
  | .missingParent shortcode base =>
      "Language " ++ shortcode ++ " needs to extend another language. Only " ++ base ++
        " does not extend another language"
  | .missingBaseLanguage shortcode => "Base language " ++ shortcode ++ " is not configured"
  | .unknownParent shortcode parent =>
      "Language " ++ shortcode ++ " extends " ++ parent ++ ", which is not configured"
  | .inheritanceCycle shortcodes =>
      "Languages " ++ String.intercalate ", " shortcodes ++
        " never reach the base language through 'extends'"

namespace Language

/-- The name of an entry without blanks around it, if anything is left. -/
def nameOf? (entry : LanguageEntry) : Option String :=
  match entry.name.map Text.trim with
  | none => none
  | some name => if name = "" then none else some name

/-- Checks an entry against the languages before it. -/
def ofEntry? (base : String) (before : List Language) (entry : LanguageEntry) :
    Except LanguageFault Language :=
  if before.any fun l => l.shortcode == entry.shortcode then
    .error (.duplicateShortcode entry.shortcode)
  else
    match nameOf? entry with
    | none => .error (.missingName entry.shortcode)
    | some name =>
        match before.find? fun l => l.name == name with
        | some first => .error (.duplicateName entry.shortcode name first.shortcode)
        | none =>
            match entry.parent with
            | some parent =>
                if entry.shortcode = base then .error (.illegalParent entry.shortcode parent)
                else .ok ⟨entry.shortcode, name, some parent⟩
            | none =>
                if entry.shortcode = base then .ok ⟨entry.shortcode, name, none⟩
                else .error (.missingParent entry.shortcode base)

/-- Checks entries one after the other, given the languages before them. -/
def ofEntries? (base : String) (before : List Language) :
    List LanguageEntry → Except LanguageFault (List Language)
  | [] => .ok before
  | entry :: rest =>
      match ofEntry? base before entry with
      | .error e => .error e
      | .ok l => ofEntries? base (before ++ [l]) rest

end Language

end Phrasebook
