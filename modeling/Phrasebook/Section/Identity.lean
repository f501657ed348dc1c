import Phrasebook.Section.Word

/-!
# Section — Identity

A section is named by the words of the path that leads to it.  From the words come the three names
it has in the generated modules: the key of its field, the variable that holds its value and the
interface that types it.  An identity is extended by a path segment; a segment without a letter or
digit is refused.
-/

namespace Phrasebook.Section

/-- The words that name a section, outermost first. -/
structure Identity where
  words : List Word
  deriving DecidableEq

/-- A path segment without a letter or digit. -/
structure InvalidSegment where
  segment : String
  deriving DecidableEq

/-- The text of the refusal. -/
def InvalidSegment.message (e : InvalidSegment) : String :=
  "Path segment '" ++ e.segment ++ "' has no alphanumeric characters"

namespace Identity

/-- The identity of a language's own directory, before any segment. -/
def root : Identity :=
  ⟨[]⟩

/-- Has no words. -/
def isRoot (id : Identity) : Bool :=
  id.words.isEmpty

/-- The key of the section's field: the words joined by dashes. -/
def key (id : Identity) : String :=
  String.ofList (List.intercalate ['-'] (id.words.map Word.letters))

/-- The section's variable: `_`, the first word, and the other words capitalized. -/
def variableName (id : Identity) : String :=
  match id.words with
  | [] => "_"
  | w :: ws => String.ofList ('_' :: (w.letters ++ ws.flatMap Word.capitalized))

/-- The section's interface: `I` and every word capitalized. -/
def interfaceName (id : Identity) : String :=
  String.ofList ('I' :: id.words.flatMap Word.capitalized)

/-- The identity with the words of one more segment. -/
def extend (id : Identity) (segment : String) : Except InvalidSegment Identity :=
  match wordsOf segment with
  | [] => .error ⟨segment⟩
  | w :: ws => .ok ⟨id.words ++ w :: ws⟩

/-- The identity extended by a path, outermost segment first. -/
def extendAll (id : Identity) : List String → Except InvalidSegment Identity
  | [] => .ok id
  | segment :: rest =>
      match id.extend segment with
      | .error e => .error e
      | .ok extended => extended.extendAll rest

end Identity

end Phrasebook.Section
