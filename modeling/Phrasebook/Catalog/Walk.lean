import Phrasebook.Catalog.Assembly

/-!
# Catalog — Walk

The translation files of one language.  A directory is walked depth first, its directories before
its files; each directory adds a segment to the identity of what it holds, and each file that the
glob picks is a section named by its stem.  Directories may be nested only so deep as the storage
allows.
-/

namespace Phrasebook

/-- How the files of a language are found. -/
structure Walk where
  glob : Glob
  shortcode : String

namespace Walk

/-- The identity of a directory or file in a directory. -/
def extend (w : Walk) (id : Section.Identity) (segment : String) (path : Path) :
    Except CatalogFault Section.Identity :=
  match id.extend segment with
  | .ok extended => .ok extended
  | .error e => .error (.invalidSegment w.shortcode path e.segment)

/-- The payload of the file at a path. -/
def payload (w : Walk) (path : Path) (content : String) : Except CatalogFault Payload :=
  match Payload.ofFile? content with
  | .ok payload => .ok payload
  | .error fault => .error (.file w.shortcode path fault)

/-- The section of a file, if it is a translation file. -/
def file (w : Walk) (directory : Path) (id : Section.Identity) (name : String) :
    Job (List SectionFile) := do
  let path := directory.join name
  if w.glob.isMatch name then
    let extended ← Job.ofExcept (w.extend id (fileStem name) path)
    let content ← Job.readText path
    let payload ← Job.ofExcept (w.payload path content)
    return [⟨extended, path, payload⟩]
  else
    Job.tell .debug ("Skipping " ++ path.text)
    return []

/-- The sections of a directory with directories nested less deep than a limit. -/
def directory (w : Walk) : Nat → Path → Section.Identity → Job (List SectionFile)
  | 0, path, _ => Job.fail (.storage path (.system .nameTooLong))
  | limit + 1, path, id => do
      let directories ← Job.listDirectories path
      let below ← Job.collect (fun name => do
        let child := path.join name
        let extended ← Job.ofExcept (w.extend id name child)
        w.directory limit child extended) directories
      let files ← Job.listFiles path
      let here ← Job.collect (w.file path id) files
      return below ++ here

/-- The keys and the names that sections have taken, and by which files. -/
structure Taken where
  keys : Entries Path
  names : Entries Path

/-- Takes names for a file, one after the other, up to the first that is taken already. -/
def takeNames (w : Walk) (path : Path) :
    List String → Entries Path → Except CatalogFault (Entries Path)
  | [], names => .ok names
  | name :: rest, names =>
      match names.get? name with
      | some first => .error (.duplicateIdentifier w.shortcode name first path)
      | none => w.takeNames path rest (names.insert name path)

/-- Takes the key of a section, and then its names. -/
def take (w : Walk) (taken : Taken) (f : SectionFile) : Except CatalogFault Taken :=
  match taken.keys.get? f.identity.key with
  | some first => .error (.duplicateSection w.shortcode f.identity.key first f.path)
  | none =>
      (w.takeNames f.path [f.identity.variableName, f.identity.interfaceName] taken.names).map
        fun names => ⟨taken.keys.insert f.identity.key f.path, names⟩

/-- Takes the keys and names of sections, up to the first section that cannot have its own. -/
def takeAll (w : Walk) (taken : Taken) : List SectionFile → Except CatalogFault Taken
  | [] => .ok taken
  | f :: fs =>
      match w.take taken f with
      | .error fault => .error fault
      | .ok next => w.takeAll next fs

/-- The first section that takes a key or a name of one before it. -/
def duplicate? (w : Walk) (files : List SectionFile) : Option CatalogFault :=
  match w.takeAll ⟨[], []⟩ files with
  | .error fault => some fault
  | .ok _ => none

/-- The sections of a tree, no two of which have a key or a name in common. -/
def load (w : Walk) (limit : Nat) (root : Path) (start : Section.Identity) :
    Job (List SectionFile) := do
  Job.tell .debug ("Loading " ++ root.text)
  let files ← w.directory limit root start
  match w.duplicate? files with
  | some fault => Job.fail fault
  | none => do
      Job.tell .debug ("Loaded sections of " ++ w.shortcode ++ ", " ++ toString files.length)
      return files

end Walk

end Phrasebook
