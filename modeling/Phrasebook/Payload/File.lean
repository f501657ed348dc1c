import Phrasebook.Json.Document
import Phrasebook.Payload.Document

/-!
# Payload — File

The text of a translation file: a document, and the payload that it holds.
-/

namespace Phrasebook

/-- Why a translation file holds no payload. -/
inductive FileFault where
  /-- The text is no document. -/
  | malformed (error : Json.Error)
  /-- The document holds no payload. -/
  | payload (fault : PayloadFault)
  deriving DecidableEq

/-- The text of a fault. -/
def FileFault.message : FileFault → String
  | .malformed error => "Failed to parse JSON: " ++ error.message
  | .payload fault => fault.message

/-- The payload of a translation file. -/
def Payload.ofFile? (content : String) : Except FileFault Payload :=
  match Json.read content with
  | .error e => .error (.malformed e)
  | .ok document =>
      match Payload.ofDocument? document with
      | .error e => .error (.payload e)
      | .ok payload => .ok payload

end Phrasebook
