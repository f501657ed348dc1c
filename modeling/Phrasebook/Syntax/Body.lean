import Phrasebook.Source
import Phrasebook.Syntax.Tree

/-!
# Syntax — Body

The two texts that are written for a section: the body of its constant, with the values of its
entries, and the body of its interface, with their types.  Either is written line by line, and the
entries of a block one level deeper than the block.
-/

namespace Phrasebook.Syntax

/-- Parameters with their type. -/
def typedParams (params : List String) : String :=
  String.intercalate ", " (params.map (· ++ ": string"))

/-- The object that passes parameters on. -/
def argsObject (params : List String) : String :=
  if params.isEmpty then "\x7b\x7d" else "\x7b " ++ String.intercalate ", " params ++ " \x7d"

mutual

/-- The lines of an entry in the value of its section. -/
def Entry.valueLines (depth : Nat) : Entry → Source
  | .literal name text => [⟨depth, property name ++ ": " ++ Text.quote text ++ ","⟩]
  | .callable name text params =>
      [⟨depth, property name ++ ": (" ++ typedParams params ++ ") => interpolate(" ++
        Text.quote text ++ ", " ++ argsObject params ++ "),"⟩]
  | .block name entries =>
      ⟨depth, property name ++ ": \x7b"⟩ ::
        (valueLinesOf (depth + 1) entries ++ [⟨depth, "\x7d,"⟩])

/-- The lines of entries one after the other, in the value of their section. -/
def valueLinesOf (depth : Nat) : List Entry → Source
  | [] => []
  | e :: es => e.valueLines depth ++ valueLinesOf depth es

end

mutual

/-- The lines of an entry in the interface of its section. -/
def Entry.typeLines (depth : Nat) : Entry → Source
  | .literal name _ => [⟨depth, property name ++ ": string;"⟩]
  | .callable name _ params =>
      [⟨depth, property name ++ ": (" ++ typedParams params ++ ") => string;"⟩]
  | .block name entries =>
      ⟨depth, property name ++ ": \x7b"⟩ ::
        (typeLinesOf (depth + 1) entries ++ [⟨depth, "\x7d;"⟩])

/-- The lines of entries one after the other, in the interface of their section. -/
def typeLinesOf (depth : Nat) : List Entry → Source
  | [] => []
  | e :: es => e.typeLines depth ++ typeLinesOf depth es

end

namespace Tree

/-- The lines between the braces of the section's constant. -/
def valueSource (tree : Tree) : Source :=
  valueLinesOf 1 tree

/-- The lines between the braces of the section's interface. -/
def interfaceSource (tree : Tree) : Source :=
  typeLinesOf 1 tree

/-- The body of the section's constant. -/
def value (tree : Tree) : String :=
  tree.valueSource.text

/-- The body of the section's interface. -/
def interface (tree : Tree) : String :=
  tree.interfaceSource.text

end Tree

end Phrasebook.Syntax
