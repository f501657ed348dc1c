/-!
# Path

Paths are texts and stay as they are written; what they name is said by their components, in which
repeated separators, inner dots and a separator at the end do not count.
-/

namespace Phrasebook

/-- The pieces of a text between the separators. -/
def segmentsOf : List Char → List (List Char)
  | [] => [[]]
  | c :: cs =>
      if c = '/' then [] :: segmentsOf cs
      else match segmentsOf cs with
        | [] => [[c]]
        | p :: ps => (c :: p) :: ps

/-- A path, as it is written. -/
structure Path where
  text : String
  deriving DecidableEq

/-- A step that a path takes. -/
inductive Component where
  /-- To the root of the file tree. -/
  | root
  /-- Nowhere; only at the start of a path. -/
  | here
  /-- To the directory above. -/
  | up
  /-- To an entry of the directory. -/
  | name (name : String)
  deriving DecidableEq

namespace Path

/-- How many bytes a path may have for an operating system; no directory that such a path can reach
is nested deeper. -/
def sizeLimit : Nat := 4095

/-- The pieces between the separators of a path. -/
def segments (p : Path) : List String :=
  (segmentsOf p.text.toList).map String.ofList

/-- Starts at the root of the file tree. -/
def isAbsolute (p : Path) : Bool :=
  p.text.toList.head? == some '/'

/-- The step of a piece behind the first; empty pieces and dots are none. -/
def component? (segment : String) : Option Component :=
  if segment = "" ∨ segment = "." then none
  else if segment = ".." then some .up
  else some (.name segment)

/-- The steps of a path. -/
def components (p : Path) : List Component :=
  match p.segments with
  | [] => []
  | first :: rest =>
      let start : List Component :=
        if p.isAbsolute then [.root] else if first = "." then [.here] else (component? first).toList
      start ++ rest.filterMap component?

/-- Takes the same steps as another path. -/
def same (p q : Path) : Bool :=
  p.components == q.components

/-- Takes the steps of another path first. -/
def startsWith (p q : Path) : Bool :=
  q.components.isPrefixOf p.components

/-- A path from the place that another names; an absolute path replaces it. -/
def join (p : Path) (text : String) : Path :=
  if (⟨text⟩ : Path).isAbsolute then ⟨text⟩
  else if p.text = "" ∨ p.text.toList.getLast? = some '/' then ⟨p.text ++ text⟩
  else ⟨p.text ++ "/" ++ text⟩

/-- The pieces behind the first without those at the end that are no steps. -/
def trimSegments (segments : List String) : List String :=
  (segments.reverse.dropWhile fun s => (component? s).isNone).reverse

/-- The path of the directory that holds what a path names, as it is written. -/
def parent? (p : Path) : Option Path :=
  match p.segments with
  | [] => none
  | first :: rest =>
      match trimSegments rest with
      | [] => if p.isAbsolute ∨ first = "" then none else some ⟨""⟩
      | body =>
          match trimSegments body.dropLast with
          | [] => some ⟨if p.isAbsolute then "/" else first⟩
          | kept => some ⟨String.intercalate "/" (first :: kept)⟩

/-- The last step, if it is a name. -/
def fileName? (p : Path) : Option String :=
  match p.components.getLast? with
  | some (.name n) => some n
  | _ => none

end Path

/-- A file name up to its last dot; the whole name if there is none, or none but at its start. -/
def fileStem (name : String) : String :=
  let rest := (name.toList.reverse.dropWhile (· != '.')).drop 1
  if name = ".." ∨ rest.isEmpty then name else String.ofList rest.reverse

end Phrasebook
