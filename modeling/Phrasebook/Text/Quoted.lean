/-!
# Text — Quoted

String literals of generated modules: a text between double quotes, in which the quote, the
backslash and the characters below U+0020 are escaped and everything else stands for itself.  The
five controls with a letter of their own use it, the others are written `\u00xx`.
-/

namespace Phrasebook.Text

/-- The lower case hexadecimal digit of a number below sixteen. -/
def hexDigit (n : Nat) : Char :=
  if n < 10 then Char.ofNat (n + 48) else Char.ofNat (n + 87)

/-- A character as it stands inside a string literal. -/
def escape (c : Char) : List Char :=
  if c = '"' then ['\\', '"']
  else if c = '\\' then ['\\', '\\']
  else if c = '\n' then ['\\', 'n']
  else if c = '\r' then ['\\', 'r']
  else if c = '\t' then ['\\', 't']
  else if c = '\x08' then ['\\', 'b']
  else if c = '\x0c' then ['\\', 'f']
  else if c.toNat < 0x20 then
    ['\\', 'u', '0', '0', hexDigit (c.toNat / 16), hexDigit (c.toNat % 16)]
  else [c]

/-- The characters of the string literal that denotes a text. -/
def quoteChars (cs : List Char) : List Char :=
  '"' :: (cs.flatMap escape ++ ['"'])

/-- The string literal that denotes a text. -/
def quote (text : String) : String :=
  String.ofList (quoteChars text.toList)

end Phrasebook.Text
