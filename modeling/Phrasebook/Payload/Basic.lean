import Phrasebook.Entries

/-!
# Payload — Basic

The texts of one section, named and in order.  An entry is a plain text, a template with its
declared parameters, or a node with entries of its own.
-/

namespace Phrasebook

/-- What stands under one name. -/
inductive Translation where
  /-- A plain text. -/
  | literal (text : String)
  /-- A text with placeholders, and its parameters in call order. -/
  | template (text : String) (params : List String)
  /-- Named entries. -/
  | node (entries : List (String × Translation))

/-- The entries of a section. -/
abbrev Payload : Type :=
  Entries Translation

/-- The names that lead from the root of a section to one of its entries. -/
abbrev EntryPath : Type :=
  List String

/-- An entry path as diagnostics write it. -/
def EntryPath.text (path : EntryPath) : String :=
  String.intercalate "." path

end Phrasebook
