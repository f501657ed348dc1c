/-!
# Text — Identifier

The names that generated modules can use bare.  An identifier is an ASCII letter, `_` or `$`,
followed by ASCII letters, digits, `_` and `$`; a parameter name is an identifier that is no
reserved word of strict-mode modules.
-/

namespace Phrasebook.Text

/-- An ASCII letter, `_` or `$`. -/
def isIdentifierStart (c : Char) : Bool :=
  c.isAlpha || c == '_' || c == '$'

/-- An ASCII letter or digit, `_` or `$`. -/
def isIdentifierPart (c : Char) : Bool :=
  c.isAlphanum || c == '_' || c == '$'

/-- A start character, followed by part characters only. -/
def isIdentifier (name : String) : Bool :=
  match name.toList with
  | [] => false
  | c :: cs => isIdentifierStart c && cs.all isIdentifierPart

/-- Identifiers that cannot name a parameter in a strict-mode module. -/
def reservedWords : List String :=
  ["arguments", "await", "break", "case", "catch", "class", "const", "continue", "debugger",
   "default", "delete", "do", "else", "enum", "eval", "export", "extends", "false", "finally",
   "for", "function", "if", "implements", "import", "in", "instanceof", "interface", "let",
   "new", "null", "package", "private", "protected", "public", "return", "static", "super",
   "switch", "this", "throw", "true", "try", "typeof", "var", "void", "while", "with", "yield"]

/-- An identifier that is not reserved. -/
def isParameterName (name : String) : Bool :=
  isIdentifier name && !reservedWords.contains name

end Phrasebook.Text
