/-!
# Text — Terminal

Text for a terminal.  Characters that a terminal could take for the start of a command are written
as escapes; line breaks, tabs and all that is printed stay as they are.
-/

namespace Phrasebook.Text

/-- The characters below 128 that can start a command or erase what is shown. -/
def commandChars : List Char :=
  ['\x07', '\x08', '\x0c', '\x1b', '\x7f']

/-- A character as a terminal is given it. -/
def terminalChar (c : Char) : String :=
  if c ∈ commandChars then
    "\\x" ++ String.ofList [Nat.digitChar (c.toNat / 16), Nat.digitChar (c.toNat % 16)]
  else if 0x80 ≤ c.toNat ∧ c.toNat ≤ 0x9F then
    "\\u\x7b" ++ String.ofList (Nat.toDigits 16 c.toNat) ++ "\x7d"
  else c.toString

/-- A text as a terminal is given it. -/
def forTerminal (text : String) : String :=
  String.join (text.toList.map terminalChar)

end Phrasebook.Text
