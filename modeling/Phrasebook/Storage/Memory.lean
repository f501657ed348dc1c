import Phrasebook.Storage.Script
import Phrasebook.Text.Order

/-!
# Storage — Memory

A storage that is a value: some directories, some files with their texts, and a list of requests
that it refuses.  Paths name the same entry if they take the same steps; an entry keeps the path
under which it was first put there.
-/

namespace Phrasebook

/-- The kinds of requests. -/
inductive RequestKind where
  | directoryExists
  | listDirectories
  | listFiles
  | readText
  | writeText
  | removeAll
  | createAll
  deriving DecidableEq

/-- The kind of a request. -/
def Request.kind : Request → RequestKind
  | .directoryExists _ => .directoryExists
  | .listDirectories _ => .listDirectories
  | .listFiles _ => .listFiles
  | .readText _ => .readText
  | .writeText _ _ => .writeText
  | .removeAll _ => .removeAll
  | .createAll _ => .createAll

/-- A request that is refused, and the reason that is given. -/
structure Refusal where
  kind : RequestKind
  path : Path
  reason : String
  deriving DecidableEq

/-- Directories, files and refusals. -/
structure Memory where
  directories : List Path
  files : List (Path × String)
  refusals : List Refusal
  deriving DecidableEq

/-- A path and the paths of the directories above it, nearest first. -/
def Path.ancestorsFrom : Nat → Path → List Path
  | 0, p => [p]
  | n + 1, p =>
      match p.parent? with
      | none => [p]
      | some q => p :: ancestorsFrom n q

/-- A path and the paths of the directories above it, nearest first. -/
def Path.ancestors (p : Path) : List Path :=
  ancestorsFrom p.components.length p

/-- A path names an entry of a directory. -/
def Path.isChildOf (p directory : Path) : Bool :=
  match p.parent? with
  | none => false
  | some parent => parent.same directory

namespace Memory

def empty : Memory :=
  ⟨[], [], []⟩

/-- A directory is there. -/
def hasDirectory (m : Memory) (path : Path) : Bool :=
  m.directories.any fun d => d.same path

/-- The text of a file. -/
def text? (m : Memory) (path : Path) : Option String :=
  (m.files.find? fun f => f.1.same path).map Prod.snd

/-- The directories with one more, if it is not there yet. -/
def addDirectory (m : Memory) (path : Path) : Memory :=
  if path.text = "" ∨ m.hasDirectory path then m
  else { m with directories := m.directories ++ [path] }

/-- The directories with one more and all above it. -/
def addDirectories (m : Memory) (path : Path) : Memory :=
  path.ancestors.foldl addDirectory m

/-- Files with another text for one of them, or with one more. -/
def putFile (path : Path) (contents : String) : List (Path × String) → List (Path × String)
  | [] => [(path, contents)]
  | f :: fs =>
      if f.1.same path then (f.1, contents) :: fs else f :: putFile path contents fs

/-- The storage with a file and all directories above it. -/
def put (m : Memory) (path : Path) (contents : String) : Memory :=
  let m := match path.parent? with
    | none => m
    | some parent => m.addDirectories parent
  { m with files := putFile path contents m.files }

/-- The storage without an entry and everything below it. -/
def remove (m : Memory) (path : Path) : Memory :=
  { m with
    directories := m.directories.filter fun d => !d.startsWith path
    files := m.files.filter fun f => !f.1.startsWith path }

/-- The sorted names of those paths that name entries of a directory. -/
def childNames (directory : Path) (paths : List Path) : List String :=
  sorted ((paths.filter fun p => p.isChildOf directory).filterMap Path.fileName?)

/-- The files below a directory, with their texts. -/
def filesBelow (m : Memory) (directory : Path) : List (Path × String) :=
  m.files.filter fun f => f.1.startsWith directory

/-- More than the number of directories that can be nested in each other. -/
def depth (m : Memory) : Nat :=
  m.directories.length + 1

/-- The reason for which a request is refused, if it is. -/
def refusal? (m : Memory) (request : Request) : Option String :=
  (m.refusals.find? fun r => r.kind = request.kind ∧ r.path.same request.path).map Refusal.reason

/-- The answer to a request that is not refused, and the storage behind it. -/
def perform (m : Memory) : (r : Request) → r.Answer × Memory
  | .directoryExists path => (m.hasDirectory path, m)
  | .listDirectories path =>
      (if m.hasDirectory path then .ok (childNames path m.directories)
       else .error (.missing path), m)
  | .listFiles path =>
      (if m.hasDirectory path then .ok (childNames path (m.files.map Prod.fst))
       else .error (.missing path), m)
  | .readText path =>
      (match m.text? path with
       | some text => .ok text
       | none => .error (.missing path), m)
  | .writeText path contents =>
      match path.parent? with
      | none => (.ok (), { m with files := putFile path contents m.files })
      | some parent =>
          if m.hasDirectory parent then
            (.ok (), { m with files := putFile path contents m.files })
          else (.error (.missing parent), m)
  | .removeAll path => (.ok (), m.remove path)
  | .createAll path => (.ok (), m.addDirectories path)

/-- The answer to a request, and the storage behind it. -/
def answer (r : Request) (m : Memory) : r.Answer × Memory :=
  match m.refusal? r with
  | some reason => (r.fail (.refused reason), m)
  | none => m.perform r

/-- Runs a script. -/
def run {α : Type} (m : Memory) (script : Script α) : Run Memory α :=
  script.run answer m

end Memory

end Phrasebook
