import Phrasebook.Storage.Memory

/-!
# Storage — Disk

A file tree as an operating system keeps it: directories, files and symbolic links under names,
and a working directory.  Paths are resolved step by step, links are followed, and each request
fails with the error that the system gives.  Names and contents may be bytes that are no text; such
names are left out of listings, such contents cannot be read.
-/

namespace Phrasebook

/-- A name in a directory. -/
inductive FileName where
  | text (name : String)
  | bytes (name : List UInt8)
  deriving DecidableEq

/-- What a file holds. -/
inductive Content where
  | text (contents : String)
  | bytes (contents : List UInt8)
  deriving DecidableEq

/-- What stands under a name. -/
inductive Node where
  | file (content : Content)
  | link (target : String)
  | directory
  deriving DecidableEq

/-- The names that lead from the root of the tree to a node, without links. -/
abbrev Place : Type :=
  List FileName

/-- A file tree with a working directory. -/
structure Disk where
  nodes : List (Place × Node)
  workingDirectory : Place
  /-- The entries that have been left out of listings for their names. -/
  leftOut : List Place
  deriving DecidableEq

namespace Disk

/-- How many links a path may lead through. -/
def linkLimit : Nat := 40

/-- How many bytes a name may have. -/
def nameLimit : Nat := 255

/-- The node at a place; the root is a directory. -/
def node? (d : Disk) (place : Place) : Option Node :=
  if place.isEmpty then some .directory else d.nodes.lookup place

/-- The steps of a path behind its start. -/
def stepsOf (path : Path) : List String :=
  if path.isAbsolute then path.segments.drop 1 else path.segments

/-- The place where a path starts. -/
def startOf (path : Path) (here : Place) : Place :=
  if path.isAbsolute then [] else here

/-- Where steps lead to, and how many more links may be followed behind them. -/
structure Arrival where
  place : Place
  links : Nat
  deriving DecidableEq

/-- The place that steps lead to, through at most so many links.  An empty step and a dot stay in
a directory. -/
def resolve (d : Disk) (links : Nat) (here : Place) (steps : List String) :
    Except SystemError Arrival :=
  match steps with
  | [] => .ok ⟨here, links⟩
  | step :: rest =>
      match d.node? here with
      | none => .error .noEntry
      | some (.file _) => .error .notDirectory
      | some (.link _) => .error .notDirectory
      | some .directory =>
          if step = "" ∨ step = "." then d.resolve links here rest
          else if step = ".." then d.resolve links here.dropLast rest
          else if nameLimit < step.utf8ByteSize then .error .nameTooLong
          else
            match d.node? (here ++ [.text step]) with
            | none => .error .noEntry
            | some (.link target) =>
                match links with
                | 0 => .error .tooManyLinks
                | links + 1 =>
                    d.resolve links (startOf ⟨target⟩ here) (stepsOf ⟨target⟩ ++ rest)
            | some _ => d.resolve links (here ++ [.text step]) rest
termination_by (links, steps.length)

/-- Following links uses them up. -/
theorem links_le_of_resolve {d : Disk} {links : Nat} {here : Place} {steps : List String}
    {arrival : Arrival} (h : d.resolve links here steps = .ok arrival) :
    arrival.links ≤ links := by
  fun_induction resolve d links here steps with
  | case1 => cases h; exact Nat.le_refl _
  | case10 _ _ _ _ _ _ _ _ _ _ ih => exact Nat.le_succ_of_le (ih h)
  | _ => grind

/-- A path that names something at all. -/
def checkPath (path : Path) : Except SystemError Unit :=
  if path.text = "" then .error .noEntry
  else if Path.sizeLimit < path.text.utf8ByteSize then .error .nameTooLong
  else .ok ()

/-- The place that a path leads to. -/
def find (d : Disk) (path : Path) : Except SystemError Place := do
  checkPath path
  return (← d.resolve linkLimit (startOf path d.workingDirectory) (stepsOf path)).place

/-- The node that a path leads to. -/
def findNode (d : Disk) (path : Path) : Except SystemError Node := do
  match d.node? (← d.find path) with
  | some node => .ok node
  | none => .error .noEntry

/-- The steps without the empty ones at their end, and whether there were any. -/
def trimSteps (steps : List String) : List String × Bool :=
  ((steps.reverse.dropWhile (· == "")).reverse, steps.getLast? == some "")

/-- The directory that all steps but the last lead to. -/
def directoryOf (d : Disk) (links : Nat) (here : Place) (steps : List String) :
    Except SystemError Arrival :=
  match d.resolve links here steps.dropLast with
  | .error e => .error e
  | .ok arrival =>
      match d.node? arrival.place with
      | some .directory => .ok arrival
      | some _ => .error .notDirectory
      | none => .error .noEntry

/-- The way to the directory uses up links as well. -/
theorem links_le_of_directoryOf {d : Disk} {links : Nat} {here : Place} {steps : List String}
    {arrival : Arrival} (h : d.directoryOf links here steps = .ok arrival) :
    arrival.links ≤ links := by
  unfold directoryOf at h
  split at h
  · cases h
  · next way =>
      split at h <;> cases h
      exact links_le_of_resolve way

/-- The last of some steps, if it is a name in a directory. -/
def lastName? (steps : List String) : Option String :=
  match steps.getLast? with
  | none => none
  | some step => if step = "." ∨ step = ".." then none else some step

/-- The place and the node that a path names, a link at its end not followed. -/
def findLast (d : Disk) (path : Path) : Except SystemError (Place × Node) := do
  checkPath path
  let steps := stepsOf path
  match trimSteps steps with
  | (trimmed, false) =>
      match lastName? trimmed with
      | some name =>
          let above ← d.directoryOf linkLimit (startOf path d.workingDirectory) trimmed
          if nameLimit < name.utf8ByteSize then .error .nameTooLong
          else
            let place := above.place ++ [.text name]
            match d.node? place with
            | some node => .ok (place, node)
            | none => .error .noEntry
      | none =>
          let place ← d.find path
          return (place, ← d.findNode path)
  | (_, true) =>
      let place ← d.find path
      return (place, ← d.findNode path)

/-- The place of the file that a path leads to, or of the one that it would create.  The links on
the way to its directory and those at its end count together. -/
def fileTarget (d : Disk) (links : Nat) (here : Place) (path : Path) :
    Except SystemError Place :=
  let steps := trimSteps (stepsOf path)
  match way : d.directoryOf links (startOf path here) steps.1 with
  | .error e => .error e
  | .ok above =>
      match lastName? steps.1 with
      | none => .error .isDirectory
      | some name =>
          if steps.2 then .error .isDirectory
          else if nameLimit < name.utf8ByteSize then .error .nameTooLong
          else
            match d.node? (above.place ++ [.text name]) with
            | some .directory => .error .isDirectory
            | some (.link target) =>
                match _ : above.links with
                | 0 => .error .tooManyLinks
                | left + 1 =>
                    have := links_le_of_directoryOf way
                    d.fileTarget left above.place ⟨target⟩
            | _ => .ok (above.place ++ [.text name])
termination_by links

/-- The tree with a node at a place. -/
def set (d : Disk) (place : Place) (node : Node) : Disk :=
  { d with nodes := d.nodes.filter (fun n => n.1 != place) ++ [(place, node)] }

/-- The tree without a node and everything below it. -/
def removeTree (d : Disk) (place : Place) : Disk :=
  { d with nodes := d.nodes.filter fun n => !place.isPrefixOf n.1 }

/-- The tree without everything below a node. -/
def removeBelow (d : Disk) (place : Place) : Disk :=
  { d with nodes := d.nodes.filter fun n => n.1 == place || !place.isPrefixOf n.1 }

/-- Writes a file. -/
def write (d : Disk) (path : Path) (content : Content) : Except SystemError Disk := do
  checkPath path
  let place ← d.fileTarget linkLimit d.workingDirectory path
  return d.set place (.file content)

/-- Creates one directory. -/
def makeDirectory (d : Disk) (path : Path) : Except SystemError Disk := do
  checkPath path
  let steps := (trimSteps (stepsOf path)).1
  let above ← d.directoryOf linkLimit (startOf path d.workingDirectory) steps
  match lastName? steps with
  | none => .error .exists
  | some name =>
      if nameLimit < name.utf8ByteSize then .error .nameTooLong
      else if (d.node? (above.place ++ [.text name])).isSome then .error .exists
      else .ok (d.set (above.place ++ [.text name]) .directory)

/-- A path leads to a directory. -/
def isDirectory (d : Disk) (path : Path) : Bool :=
  match d.findNode path with
  | .ok .directory => true
  | _ => false

/-- Creates a directory unless it is there already. -/
def ensureDirectory (d : Disk) (path : Path) : Except SystemError Disk :=
  match d.makeDirectory path with
  | .ok d => .ok d
  | .error e => if e = .exists ∧ d.isDirectory path then .ok d else .error e

/-- A change of the tree, or the error and the tree as it is. -/
def settled (d : Disk) (result : Except SystemError Disk) : Except SystemError Unit × Disk :=
  match result with
  | .ok d => (.ok (), d)
  | .error e => (.error e, d)

/-- Creates a directory and, where the system says that it would stand in none, the one above it
first, at most so many directories up; also the error, if there is one.  What has been created
before an error stays. -/
def makeDirectories (d : Disk) : Nat → Path → Except SystemError Unit × Disk
  | 0, _ => (.ok (), d)
  | n + 1, path =>
      match path.parent? with
      | none => (.ok (), d)
      | some parent =>
          match d.ensureDirectory path with
          | .ok d => (.ok (), d)
          | .error e =>
              if e = .noEntry then
                match d.makeDirectories n parent with
                | (.ok (), d) => d.settled (d.ensureDirectory path)
                | failed => failed
              else (.error e, d)

/-- Creates a directory and those above it that are missing. -/
def createAll (d : Disk) (path : Path) : Except SystemError Unit × Disk :=
  d.makeDirectories (path.components.length + 1) path

/-- Removes a directory that is empty, unless its path leads nowhere. -/
def removeEmpty (d : Disk) (path : Path) : Except SystemError Disk :=
  let steps := (trimSteps (stepsOf path)).1
  match d.directoryOf linkLimit (startOf path d.workingDirectory) steps, steps.getLast? with
  | .error e, _ => if e = .noEntry then .ok d else .error e
  | .ok _, none => .error .busy
  | .ok above, some step =>
      if step = "." then .error .invalidArgument
      else if step = ".." then .error .notEmpty
      else
        match d.node? (above.place ++ [.text step]) with
        | some .directory => .ok (d.removeTree (above.place ++ [.text step]))
        | some _ => .error .notDirectory
        | none => .ok d

/-- Removes a directory with everything in it, or a link alone; also the error, if there is one, and
what is left of the tree. -/
def removeAll (d : Disk) (path : Path) : Except SystemError Unit × Disk :=
  match d.findLast path with
  | .error e => (if e = .noEntry then .ok () else .error e, d)
  | .ok (place, .link _) => (.ok (), d.removeTree place)
  | .ok (_, .file _) => (.error .notDirectory, d)
  | .ok (place, .directory) =>
      let emptied := d.removeBelow place
      match emptied.removeEmpty path with
      | .ok removed => (.ok (), removed)
      | .error e => (.error e, emptied)

/-- The text of a file. -/
def readText (d : Disk) (path : Path) : Except StorageError String :=
  match d.findNode path with
  | .error e => .error (.system e)
  | .ok .directory => .error (.system .isDirectory)
  | .ok (.file (.text contents)) => .ok contents
  | .ok (.file (.bytes _)) => .error .notText
  | .ok (.link _) => .error (.system .tooManyLinks)

/-- The entries of a directory, a link being neither file nor directory. -/
def entriesOf (d : Disk) (path : Path) : Except SystemError (List (Place × Node)) := do
  let place ← d.find path
  match d.node? place with
  | some .directory =>
      .ok (d.nodes.filter fun n => n.1.dropLast == place && !n.1.isEmpty)
  | some _ => .error .notDirectory
  | none => .error .noEntry

/-- The name at the end of a place, if it is a text. -/
def nameOf? (place : Place) : Option String :=
  match place.getLast? with
  | some (.text name) => some name
  | _ => none

/-- The sorted names of the entries of a directory that are of some kind. -/
def list (d : Disk) (path : Path) (kind : Node → Bool) : Except StorageError (List String) × Disk :=
  match d.entriesOf path with
  | .error e => (.error (.system e), d)
  | .ok entries =>
      let places := (entries.filter fun n => kind n.2).map Prod.fst
      (.ok (sorted (places.filterMap nameOf?)),
        { d with leftOut := d.leftOut ++ places.filter fun p => (nameOf? p).isNone })

/-- A change of the tree as the answer to a request. -/
def reply (changed : Except SystemError Unit × Disk) : Except StorageError Unit × Disk :=
  (changed.1.mapError .system, changed.2)

/-- The answer to a request on a path that can name something, and the tree behind it. -/
def perform (d : Disk) : (r : Request) → r.Answer × Disk
  | .directoryExists path => (d.isDirectory path, d)
  | .listDirectories path => d.list path (· = .directory)
  | .listFiles path => d.list path fun n => match n with
      | .file _ => true
      | _ => false
  | .readText path => (d.readText path, d)
  | .writeText path contents => reply (d.settled (d.write path (.text contents)))
  | .removeAll path => reply (d.removeAll path)
  | .createAll path => reply (d.createAll path)

/-- The answer to a request, and the tree behind it. -/
def answer (r : Request) (d : Disk) : r.Answer × Disk :=
  if r.path.text.toList.contains '\x00' then (r.fail .malformedPath, d) else d.perform r

/-- The notes on the entries that have been left out. -/
def remarks (d : Disk) : List Note :=
  d.leftOut.map fun _ => .leftOut

/-- Runs a script. -/
def run {α : Type} (d : Disk) (script : Script α) : Run Disk α :=
  script.run answer d

/-- A tree with nothing but the working directory. -/
def scratch : Disk :=
  ⟨[([.text "work"], .directory)], [.text "work"], []⟩

/-- The tree with a directory and all directories above it. -/
def putDirectory (d : Disk) (path : Path) : Disk :=
  (d.createAll path).2

/-- The tree with a file and all directories above it. -/
def put (d : Disk) (path : Path) (content : Content) : Disk :=
  let d := (path.parent?.map d.putDirectory).getD d
  (d.settled (d.write path content)).2

/-- The tree with some node under a name in a directory, and the directory itself. -/
def putNode (d : Disk) (directory : Path) (name : FileName) (node : Node) : Disk :=
  let d := if directory.text = "" then d else d.putDirectory directory
  match d.find (if directory.text = "" then ⟨"."⟩ else directory) with
  | .ok place => d.set (place ++ [name]) node
  | .error _ => d

/-- The tree without what a path names and everything below it. -/
def delete (d : Disk) (path : Path) : Disk :=
  match d.findLast path with
  | .ok (place, _) => d.removeTree place
  | .error _ => d

/-- The files and directories below the working directory, from there. -/
def contents (d : Disk) : List (Place × Node) :=
  d.nodes.filterMap fun n =>
    if d.workingDirectory.isPrefixOf n.1 ∧ n.1 ≠ d.workingDirectory then
      some (n.1.drop d.workingDirectory.length, n.2)
    else none

end Disk

end Phrasebook
