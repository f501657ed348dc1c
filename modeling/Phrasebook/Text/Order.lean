/-!
# Text — Order

Texts in order.  One text comes before another as their first different characters do, which is also
the order of their bytes.
-/

namespace Phrasebook

/-- Inserts a text before the first that is greater. -/
def insertSorted (name : String) : List String → List String
  | [] => [name]
  | n :: ns => if name ≤ n then name :: n :: ns else n :: insertSorted name ns

/-- Texts in ascending order of their characters. -/
def sorted : List String → List String
  | [] => []
  | n :: ns => insertSorted n (sorted ns)

end Phrasebook
