import Phrasebook.Json.Value

/-!
# Json — Fault

What can be wrong with a document, and where.  While a document is read, a place is the number of
bytes that follow it; once the whole text is at hand this becomes a line, counted from one, and the
number of bytes on that line before the place.
-/

namespace Phrasebook.Json

/-- What was found in place of the expected value. -/
inductive Found where
  | null
  | bool (b : Bool)
  | number (n : Number)
  | text (s : String)
  | list
  | object
  deriving DecidableEq

/-- The words for what was found. -/
def Found.describe : Found → String
  | .null => "null"
  | .bool true => "boolean `true`"
  | .bool false => "boolean `false`"
  | .number (.natural n) => "integer `" ++ toString n ++ "`"
  | .number (.negative n) => "integer `-" ++ toString n ++ "`"
  | .number (.double negative magnitude) =>
      "floating point `" ++ displayDouble negative magnitude ++ "`"
  | .text s => "string " ++ Text.display s
  | .list => "sequence"
  | .object => "map"

/-- What is wrong: the text is no document, or the document does not hold what its reader wants. -/
inductive Cause where
  | endInValue
  | endInList
  | endInObject
  | endInText
  | noValue
  | brokenKeyword
  | noColon
  | noItemEnd
  | noMemberEnd
  | trailingComma
  | keyNotText
  | trailingCharacters
  | invalidNumber
  | numberOutOfRange
  | invalidEscape
  | loneSurrogate
  | incompletePair
  | controlCharacter
  | tooDeep
  | wrongType (found : Found) (expected : String)
  | missingField (name : String)
  | duplicateField (name : String)
  | wrongLength (length : Nat) (expected : String)
  deriving DecidableEq

/-- The text of a cause. -/
def Cause.message : Cause → String
  | .endInValue => "EOF while parsing a value"
  | .endInList => "EOF while parsing a list"
  | .endInObject => "EOF while parsing an object"
  | .endInText => "EOF while parsing a string"
  | .noValue => "expected value"
  | .brokenKeyword => "expected ident"
  | .noColon => "expected `:`"
  | .noItemEnd => "expected `,` or `]`"
  | .noMemberEnd => "expected `,` or `\x7d`"
  | .trailingComma => "trailing comma"
  | .keyNotText => "key must be a string"
  | .trailingCharacters => "trailing characters"
  | .invalidNumber => "invalid number"
  | .numberOutOfRange => "number out of range"
  | .invalidEscape => "invalid escape"
  | .loneSurrogate => "lone leading surrogate in hex escape"
  | .incompletePair => "unexpected end of hex escape"
  | .controlCharacter => "control character (\\u0000-\\u001F) found while parsing a string"
  | .tooDeep => "recursion limit exceeded"
  | .wrongType found expected => "invalid type: " ++ found.describe ++ ", expected " ++ expected
  | .missingField name => "missing field `" ++ name ++ "`"
  | .duplicateField name => "duplicate field `" ++ name ++ "`"
  | .wrongLength length expected =>
      "invalid length " ++ toString length ++ ", expected " ++ expected

/-- The number of bytes of a text. -/
def byteLength (s : List Char) : Nat :=
  s.foldr (fun c n => c.utf8Size + n) 0

/-- A cause and the number of bytes after its place. -/
structure Fault where
  cause : Cause
  left : Nat
  deriving DecidableEq

namespace Fault

/-- A fault just before the rest `s` of the document. -/
def before (cause : Cause) (s : List Char) : Fault :=
  ⟨cause, byteLength s⟩

/-- A fault in the `n`-th byte of the rest `s` of the document, or at its end. -/
def within (cause : Cause) (n : Nat) (s : List Char) : Fault :=
  ⟨cause, byteLength s - n⟩

/-- A fault in the first byte of the rest `s` of the document, or at its end. -/
def atNext (cause : Cause) (s : List Char) : Fault :=
  within cause 1 s

end Fault

/-- The line and the column after so many bytes of a text that starts at the given ones. -/
def locate : List Char → Nat → Nat → Nat → Nat × Nat
  | [], _, line, column => (line, column)
  | c :: cs, bytes, line, column =>
      if bytes < c.utf8Size then (line, column + bytes)
      else if c = '\n' then locate cs (bytes - c.utf8Size) (line + 1) 0
      else locate cs (bytes - c.utf8Size) line (column + c.utf8Size)

/-- A fault at a line and a column of the document. -/
structure Error where
  cause : Cause
  line : Nat
  column : Nat
  deriving DecidableEq

/-- The fault of a document, by line and column. -/
def Fault.inDocument (fault : Fault) (document : List Char) : Error :=
  let place := locate document (byteLength document - fault.left) 1 0
  ⟨fault.cause, place.1, place.2⟩

/-- The text of an error. -/
def Error.message (e : Error) : String :=
  e.cause.message ++ " at line " ++ toString e.line ++ " column " ++ toString e.column

end Phrasebook.Json
