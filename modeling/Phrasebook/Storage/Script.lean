import Phrasebook.Path

/-!
# Storage — Script

The compiler reaches files only through seven requests.  A script is a program that asks them, one
at a time, and goes on with the answers; it runs on any storage that can answer.  A run tells the
requests in order and what the script noted on its way.
-/

namespace Phrasebook

/-- What the operating system says. -/
inductive SystemError where
  | noEntry
  | busy
  | exists
  | notDirectory
  | isDirectory
  | invalidArgument
  | nameTooLong
  | notEmpty
  | tooManyLinks
  deriving DecidableEq

/-- The number of an error. -/
def SystemError.code : SystemError → Nat
  | .noEntry => 2
  | .busy => 16
  | .exists => 17
  | .notDirectory => 20
  | .isDirectory => 21
  | .invalidArgument => 22
  | .nameTooLong => 36
  | .notEmpty => 39
  | .tooManyLinks => 40

/-- The words for an error. -/
def SystemError.words : SystemError → String
  | .noEntry => "No such file or directory"
  | .busy => "Device or resource busy"
  | .exists => "File exists"
  | .notDirectory => "Not a directory"
  | .isDirectory => "Is a directory"
  | .invalidArgument => "Invalid argument"
  | .nameTooLong => "File name too long"
  | .notEmpty => "Directory not empty"
  | .tooManyLinks => "Too many levels of symbolic links"

/-- Why a storage does not do what it is asked. -/
inductive StorageError where
  /-- Nothing is there. -/
  | missing (path : Path)
  /-- The operating system refuses. -/
  | system (error : SystemError)
  /-- A path that holds a NUL names nothing. -/
  | malformedPath
  /-- The bytes of a file are no text. -/
  | notText
  /-- Some other reason. -/
  | refused (reason : String)
  deriving DecidableEq

/-- The text of an error. -/
def StorageError.message : StorageError → String
  | .missing path => path.text ++ " does not exist"
  | .system error => error.words ++ " (os error " ++ toString error.code ++ ")"
  | .malformedPath => "file name contained an unexpected NUL byte"
  | .notText => "stream did not contain valid UTF-8"
  | .refused reason => reason

/-- What a storage can be asked. -/
inductive Request where
  | directoryExists (path : Path)
  /-- The names of the directories in a directory, sorted. -/
  | listDirectories (path : Path)
  /-- The names of the files in a directory, sorted. -/
  | listFiles (path : Path)
  | readText (path : Path)
  | writeText (path : Path) (contents : String)
  /-- Removes a directory with everything in it; that it is missing is no error. -/
  | removeAll (path : Path)
  /-- Creates a directory, and those above it that are missing. -/
  | createAll (path : Path)
  deriving DecidableEq

namespace Request

/-- The path that a request is about. -/
def path : Request → Path
  | .directoryExists p => p
  | .listDirectories p => p
  | .listFiles p => p
  | .readText p => p
  | .writeText p _ => p
  | .removeAll p => p
  | .createAll p => p

/-- What the answer to a request says. -/
abbrev Answer : Request → Type
  | .directoryExists _ => Bool
  | .listDirectories _ => Except StorageError (List String)
  | .listFiles _ => Except StorageError (List String)
  | .readText _ => Except StorageError String
  | .writeText _ _ => Except StorageError Unit
  | .removeAll _ => Except StorageError Unit
  | .createAll _ => Except StorageError Unit

/-- The answer to a request that fails. -/
def fail (e : StorageError) : (r : Request) → r.Answer
  | .directoryExists _ => false
  | .listDirectories _ => .error e
  | .listFiles _ => .error e
  | .readText _ => .error e
  | .writeText _ _ => .error e
  | .removeAll _ => .error e
  | .createAll _ => .error e

/-- Changes nothing in the storage. -/
def isRead : Request → Bool
  | .directoryExists _ => true
  | .listDirectories _ => true
  | .listFiles _ => true
  | .readText _ => true
  | _ => false

end Request

/-- How much a note matters. -/
inductive Level where
  | error
  | warn
  | info
  | debug
  deriving DecidableEq

/-- The name under which a level is shown. -/
def Level.name : Level → String
  | .error => "ERROR"
  | .warn => "WARN"
  | .info => "INFO"
  | .debug => "DEBUG"

/-- A remark about the progress of a script. -/
structure Note where
  level : Level
  text : String
  deriving DecidableEq

/-- The note that an entry is left out of a listing. -/
def Note.leftOut : Note :=
  ⟨.warn, "Skipping an entry whose name is no text"⟩

/-- The note on a request that changes what is stored. -/
def Request.note? : Request → Option Note
  | .writeText path _ => some ⟨.debug, "Writing " ++ path.text⟩
  | .removeAll path => some ⟨.debug, "Removing " ++ path.text⟩
  | .createAll path => some ⟨.debug, "Creating " ++ path.text⟩
  | _ => none

/-- A program that asks requests and makes notes. -/
inductive Script (α : Type) where
  | done (value : α)
  | ask (request : Request) (next : request.Answer → Script α)
  | note (note : Note) (next : Script α)

/-- What a run of a script leaves. -/
structure Run (σ α : Type) where
  value : α
  storage : σ
  requests : List Request
  notes : List Note

namespace Script

variable {α β σ : Type}

/-- One script, and then another that depends on its value. -/
def bind (s : Script α) (f : α → Script β) : Script β :=
  match s with
  | .done a => f a
  | .ask r next => .ask r fun x => (next x).bind f
  | .note n next => .note n (next.bind f)

instance : Monad Script where
  pure := .done
  bind := bind

/-- Asks one request. -/
def request (r : Request) : Script r.Answer :=
  .ask r .done

/-- Makes a note. -/
def tell (level : Level) (text : String) : Script Unit :=
  .note ⟨level, text⟩ (.done ())

/-- Runs a script on a storage that answers each request and may change. -/
def run (answer : (r : Request) → σ → r.Answer × σ) : Script α → σ → Run σ α
  | .done a, s => ⟨a, s, [], []⟩
  | .ask r next, s =>
      let reply := answer r s
      let rest := (next reply.1).run answer reply.2
      { rest with requests := r :: rest.requests }
  | .note n next, s =>
      let rest := next.run answer s
      { rest with notes := n :: rest.notes }

end Script

end Phrasebook
