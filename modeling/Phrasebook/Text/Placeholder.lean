import Phrasebook.Text.Identifier

/-!
# Text — Placeholder

A placeholder is a bare identifier between double braces.  `placeholders` reads a text from left
to right: where a placeholder stands it takes the name and goes on behind it, elsewhere it goes on
one character further.
-/

namespace Phrasebook.Text

/-- The name of the placeholder that starts at the first character, if one does. -/
def placeholderAt? : List Char → Option (List Char)
  | '{' :: '{' :: rest =>
      match rest.takeWhile isIdentifierPart, rest.dropWhile isIdentifierPart with
      | c :: cs, '}' :: '}' :: _ => if isIdentifierStart c then some (c :: cs) else none
      | _, _ => none
  | _ => none

/-- The placeholders after the first `skip` characters of a text. -/
def placeholdersFrom : Nat → List Char → List String
  | _, [] => []
  | skip + 1, _ :: cs => placeholdersFrom skip cs
  | 0, c :: cs =>
      match placeholderAt? (c :: cs) with
      | some name => String.ofList name :: placeholdersFrom (name.length + 3) cs
      | none => placeholdersFrom 0 cs

/-- The placeholder names of a text in order of appearance, repeats included. -/
def placeholders (text : String) : List String :=
  placeholdersFrom 0 text.toList

end Phrasebook.Text
