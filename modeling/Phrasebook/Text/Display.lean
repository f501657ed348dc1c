import Phrasebook.Text.Invisible

/-!
# Text — Display

Text as a diagnostic shows it: between double quotes, on one line, with every character that
would not be seen written as an escape.
-/

namespace Phrasebook.Text

/-- A character as it stands in a diagnostic. -/
def displayChar (c : Char) : String :=
  if c = '"' then "\\\""
  else if c = '\\' then "\\\\"
  else if c = '\n' then "\\n"
  else if c = '\r' then "\\r"
  else if c = '\t' then "\\t"
  else if c = '\x00' then "\\0"
  else if isInvisible c then
    "\\u\x7b" ++ String.ofList (Nat.toDigits 16 c.toNat) ++ "\x7d"
  else c.toString

/-- A text as it stands in a diagnostic. -/
def display (text : String) : String :=
  "\"" ++ String.join (text.toList.map displayChar) ++ "\""

end Phrasebook.Text
