import Phrasebook.Json.Value
import Phrasebook.Payload.Basic

/-!
# Payload — Document

The payload that a document holds.  The document is an object with a member `translations`; below
it a text is a literal, an object with a text `value` and at most `args` besides is a template, and
any other object is a node.  The payload itself is never a template.  `toDocument` writes a payload
in this form.
-/

namespace Phrasebook

/-- What is wrong with the `args` of a template. -/
inductive ArgsProblem where
  | itemNotText (kind : Json.Kind)
  | notList (kind : Json.Kind)
  deriving DecidableEq

/-- The text of a problem with `args`. -/
def ArgsProblem.message : ArgsProblem → String
  | .itemNotText kind => "expected a string, found " ++ kind.name
  | .notList kind => "expected an array, found " ++ kind.name

/-- Why a document holds no payload. -/
inductive PayloadFault where
  | missingPayload
  | rootLiteral
  | unsupportedValue (path : EntryPath) (kind : Json.Kind)
  | invalidArgs (path : EntryPath) (problem : ArgsProblem)
  deriving DecidableEq

/-- The text of a fault. -/
def PayloadFault.message : PayloadFault → String
  | .missingPayload => "No \"translations\" object found in the file"
  | .rootLiteral => "Found a top-level string value; the payload root must be an object"
  | .unsupportedValue path kind => "Unsupported " ++ kind.name ++ " value at '" ++ path.text ++ "'"
  | .invalidArgs path problem =>
      "Template at '" ++ path.text ++ "' has invalid args: " ++ problem.message

/-- The member of a document that holds the payload. -/
def payloadField : String := "translations"

/-- The member of a template that holds its text. -/
def textField : String := "value"

/-- The member of a template that holds its parameters. -/
def argsField : String := "args"

/-- The text of a template-shaped object. -/
def templateText? (members : Entries Json.Value) : Option String :=
  match members.get? textField with
  | some (.text t) =>
      if members.names.all fun name => name == textField || name == argsField then some t else none
  | _ => none

/-- The texts of a list, if its items are texts. -/
def argTexts (path : EntryPath) : List Json.Value → Except PayloadFault (List String)
  | [] => .ok []
  | .text t :: rest => (argTexts path rest).map (t :: ·)
  | item :: _ => .error (.invalidArgs path (.itemNotText item.kind))

/-- The parameters that the `args` of a template declare. -/
def templateParams (path : EntryPath) (members : Entries Json.Value) :
    Except PayloadFault (List String) :=
  match members.get? argsField with
  | none => .ok []
  | some .null => .ok []
  | some (.list items) => argTexts path items
  | some other => .error (.invalidArgs path (.notList other.kind))

mutual

/-- The translation that a value stands for at a place of the payload. -/
def Translation.ofJson? (path : EntryPath) : Json.Value → Except PayloadFault Translation
  | .text t => .ok (.literal t)
  | .object members =>
      match templateText? members with
      | some t => (templateParams path members).map (.template t)
      | none => (entriesOfJson? path members).map fun found => .node (Entries.ofList found)
  | other => .error (.unsupportedValue path other.kind)

/-- The entries that the members of an object stand for, from first to last. -/
def entriesOfJson? (path : EntryPath) :
    List (String × Json.Value) → Except PayloadFault (List (String × Translation))
  | [] => .ok []
  | (name, v) :: rest =>
      match Translation.ofJson? (path ++ [name]) v with
      | .error e => .error e
      | .ok t => (entriesOfJson? path rest).map ((name, t) :: ·)

end

namespace Payload

/-- The payload of a document. -/
def ofDocument? (document : Json.Value) : Except PayloadFault Payload :=
  match document with
  | .object members =>
      match Entries.get? payloadField members with
      | none => .error .missingPayload
      | some .null => .error .missingPayload
      | some (.text _) => .error .rootLiteral
      | some (.object entries) => (entriesOfJson? [] entries).map Entries.ofList
      | some other => .error (.unsupportedValue [payloadField] other.kind)
  | _ => .error .missingPayload

end Payload

mutual

/-- The value that stands for a translation. -/
def Translation.toJson : Translation → Json.Value
  | .literal t => .text t
  | .template t params => .object [(textField, .text t), (argsField, .list (params.map .text))]
  | .node entries => .object (entriesToJson entries)

/-- The members that stand for entries. -/
def entriesToJson : List (String × Translation) → List (String × Json.Value)
  | [] => []
  | (name, t) :: rest => (name, t.toJson) :: entriesToJson rest

end

/-- The document that holds a payload. -/
def Payload.toDocument (payload : Payload) : Json.Value :=
  .object [(payloadField, .object (entriesToJson payload))]

end Phrasebook
