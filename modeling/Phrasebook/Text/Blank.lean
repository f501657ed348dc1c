/-!
# Text — Blank

The characters that count as blank around a display name: the Unicode property `White_Space`.
`trim` removes them at both ends of a text and nowhere else.
-/

namespace Phrasebook.Text

/-- The ranges of the property `White_Space`, first and last code point. -/
def blankRanges : List (Nat × Nat) :=
  [(0x9, 0xD), (0x20, 0x20), (0x85, 0x85), (0xA0, 0xA0), (0x1680, 0x1680), (0x2000, 0x200A),
   (0x2028, 0x2029), (0x202F, 0x202F), (0x205F, 0x205F), (0x3000, 0x3000)]

/-- Has the property `White_Space`. -/
def isBlank (c : Char) : Bool :=
  blankRanges.any fun r => r.1 ≤ c.toNat && c.toNat ≤ r.2

/-- The characters of a text without the blanks at its end. -/
def trimEnd (cs : List Char) : List Char :=
  (cs.reverse.dropWhile isBlank).reverse

/-- The text without the blanks at both of its ends. -/
def trim (text : String) : String :=
  String.ofList (trimEnd (text.toList.dropWhile isBlank))

end Phrasebook.Text
