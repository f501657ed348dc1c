import Phrasebook.CommandLine
import Phrasebook.Text.Order

/-!
# Main

The program itself.  Requests are put to the operating system, notes are printed as they come, and
the outcome of the run becomes the exit code.
-/

namespace Phrasebook

namespace Console

/-- The errors that have words of their own. -/
def systemErrors : List SystemError :=
  [.noEntry, .busy, .exists, .notDirectory, .isDirectory, .invalidArgument, .nameTooLong,
    .notEmpty, .tooManyLinks]

/-- The number that the operating system gives for an error, and its words. -/
def numberOf? : IO.Error → Option (UInt32 × String)
  | .alreadyExists _ n words => some (n, words)
  | .otherError n words => some (n, words)
  | .resourceBusy n words => some (n, words)
  | .resourceVanished n words => some (n, words)
  | .unsupportedOperation n words => some (n, words)
  | .hardwareFault n words => some (n, words)
  | .unsatisfiedConstraints n words => some (n, words)
  | .illegalOperation n words => some (n, words)
  | .protocolError n words => some (n, words)
  | .timeExpired n words => some (n, words)
  | .interrupted _ n words => some (n, words)
  | .noFileOrDirectory _ n words => some (n, words)
  | .invalidArgument _ n words => some (n, words)
  | .permissionDenied _ n words => some (n, words)
  | .resourceExhausted _ n words => some (n, words)
  | .inappropriateType _ n words => some (n, words)
  | .noSuchThing _ n words => some (n, words)
  | .unexpectedEof => none
  | .userError _ => none

/-- An error of the operating system; some calls give its number negated. -/
def storageError (e : IO.Error) : StorageError :=
  match numberOf? e with
  | none => .refused (toString e)
  | some (n, words) =>
      match systemErrors.find? fun s => s.code = n.toNat ∨ s.code = (0 - n).toNat with
      | some s => .system s
      | none => .refused words

/-- The result of an action, or why it failed. -/
def attempt {α : Type} (action : IO α) : IO (Except StorageError α) := do
  match ← action.toBaseIO with
  | .ok x => return .ok x
  | .error e => return .error (storageError e)

/-- Prints a note, if the threshold shows it. -/
def print (threshold : CommandLine.Threshold) (note : Note) : IO Unit :=
  if CommandLine.shows threshold note.level then
    IO.println (note.level.name ++ " " ++ (CommandLine.display note).text)
  else
    pure ()

/-- The sorted names in a directory of the entries of one kind, a link having a kind of its own.
Entries that cannot be found again under their names are left out. -/
def list (threshold : CommandLine.Threshold) (path : Path) (kind : IO.FS.FileType) :
    IO (List String) := do
  let place := (← IO.currentDir) / path.text
  let mut names := []
  for entry in ← place.readDir do
    match ← entry.path.symlinkMetadata.toBaseIO with
    | .ok found => if found.type == kind then names := entry.fileName :: names
    | .error _ => print threshold .leftOut
  return sorted names

/-- The text of a file. -/
def readText (path : Path) : IO (Except StorageError String) := do
  match ← attempt (IO.FS.readBinFile ⟨path.text⟩) with
  | .ok bytes => return (String.fromUTF8? bytes).elim (.error .notText) .ok
  | .error e => return .error e

/-- Removes a directory with everything in it, or a link alone. -/
def removeAll (path : Path) : IO (Except StorageError Unit) := do
  let place := (← IO.currentDir) / path.text
  let removed ← attempt do
    if (← place.symlinkMetadata).type == .symlink then IO.FS.removeFile place
    else IO.FS.removeDirAll place
  match removed with
  | .error (.system .noEntry) => return .ok ()
  | reply => return reply

/-- The answer of the operating system to a request. -/
def answer (threshold : CommandLine.Threshold) : (r : Request) → IO r.Answer
  | .directoryExists path => do ((← IO.currentDir) / path.text).isDir
  | .listDirectories path => attempt (list threshold path .dir)
  | .listFiles path => attempt (list threshold path .file)
  | .readText path => readText path
  | .writeText path contents => attempt (IO.FS.writeFile ⟨path.text⟩ contents)
  | .removeAll path => removeAll path
  | .createAll path => attempt (IO.FS.createDirAll ⟨path.text⟩)

/-- Runs a script on the disk of this machine, with a note on each change of it. -/
def run {α : Type} (threshold : CommandLine.Threshold) : Script α → IO α
  | .done a => pure a
  | .ask r next => do
      if let some n := r.note? then print threshold n
      let x ← answer threshold r
      run threshold (next x)
  | .note n next => do
      print threshold n
      run threshold (next)

end Console

end Phrasebook

open Phrasebook in
/-- Does what the command line asks for. -/
def main (args : List String) : IO UInt32 := do
  match CommandLine.read args with
  | .help =>
      IO.println CommandLine.helpText
      return 0
  | .version =>
      IO.println CommandLine.versionText
      return 0
  | .misuse reason =>
      IO.eprintln ("error: " ++ reason)
      return CommandLine.misuseCode.toUInt32
  | .generate options =>
      let threshold := CommandLine.threshold options (← IO.getEnv "RUST_LOG")
      let outcome ← Console.run threshold (CommandLine.run options Path.sizeLimit)
      return outcome.exitCode.toUInt32
