import Phrasebook.Text.Identifier
import Phrasebook.Text.Quoted

/-!
# Source

The text of generated modules: lines with an indentation of two blanks per level, each ended by a
line feed, and the forms of names in them.
-/

namespace Phrasebook

/-- A line of source at some level. -/
structure Line where
  depth : Nat
  content : String
  deriving DecidableEq

/-- The line as text, with its end. -/
def Line.text (line : Line) : String :=
  String.ofList (List.replicate (2 * line.depth) ' ') ++ line.content ++ "\n"

/-- Lines of source. -/
abbrev Source : Type :=
  List Line

/-- Texts one after the other. -/
def concat : List String → String
  | [] => ""
  | t :: ts => t ++ concat ts

/-- The lines as text. -/
def Source.text (source : Source) : String :=
  concat (source.map Line.text)

/-- The name of a property: bare if it is an identifier, else a string literal. -/
def property (name : String) : String :=
  if Text.isIdentifier name then name else Text.quote name

end Phrasebook
