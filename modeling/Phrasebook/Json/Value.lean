import Phrasebook.Decimal.Shortest
import Phrasebook.Entries
import Phrasebook.Text.Display

/-!
# Json — Value

The values of a document, and the words that diagnostics use for them.  Objects keep the order of
their members.
-/

namespace Phrasebook.Json

/-- A number, as its digits allow: a natural number below 2⁶⁴, the negative of a number up to 2⁶³,
or a double. -/
inductive Number where
  | natural (n : Nat)
  | negative (n : Nat)
  | double (negative : Bool) (magnitude : Decimal.Double)
  deriving DecidableEq

/-- Diagnostics write up to sixteen digits before the point and up to four zeros behind it, and
other numbers with an exponent and its sign. -/
def numberStyle : Decimal.NumberStyle :=
  ⟨16, 5, "+"⟩

/-- A double as diagnostics write it. -/
def displayDouble (negative : Bool) (magnitude : Decimal.Double) : String :=
  (if negative then "-" else "") ++ numberStyle.write magnitude.shortest

/-- A document, or a part of one. -/
inductive Value where
  | null
  | bool (b : Bool)
  | number (n : Number)
  | text (s : String)
  | list (items : List Value)
  | object (members : List (String × Value))

/-- The six kinds of values. -/
inductive Kind where
  | null
  | boolean
  | number
  | text
  | list
  | object
  deriving DecidableEq

/-- The kind of a value. -/
def Value.kind : Value → Kind
  | .null => .null
  | .bool _ => .boolean
  | .number _ => .number
  | .text _ => .text
  | .list _ => .list
  | .object _ => .object

/-- The name of a kind. -/
def Kind.name : Kind → String
  | .null => "null"
  | .boolean => "boolean"
  | .number => "number"
  | .text => "string"
  | .list => "array"
  | .object => "object"

end Phrasebook.Json
