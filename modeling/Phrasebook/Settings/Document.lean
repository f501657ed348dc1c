import Phrasebook.Json.Document
import Phrasebook.Json.Skip
import Phrasebook.Settings.Basic

/-!
# Settings — Document

Settings as a document.  Members that a document leaves out keep their defaults, at the top and in
`runtime`; of a language only the shortcode is required.  Unknown members are skipped.  A record may
also be written as a list of its fields in order, of which the last ones may be left out.
-/

namespace Phrasebook.Json

/-- The fault of a value of another type at the start of a text. -/
def wrongType (expected : String) (s : List Char) : Fault :=
  match s with
  | [] => .atNext .endInValue []
  | c :: cs =>
      let found (what : Found) (rest : List Char) : Fault := .before (.wrongType what expected) rest
      let constant (word : List Char) (what : Found) : Fault :=
        match keyword word cs with
        | .error e => e
        | .ok t => found what t.1
      if c = 'n' then constant ['u', 'l', 'l'] .null
      else if c = 't' then constant ['r', 'u', 'e'] (.bool true)
      else if c = 'f' then constant ['a', 'l', 's', 'e'] (.bool false)
      else if c = '-' ∨ c.isDigit then
        match number (c :: cs) with
        | .error e => e
        | .ok n => found (.number n.value) n.rest
      else if c = '"' then
        match text cs with
        | .error e => e
        | .ok t => found (.text (String.ofList t.value)) t.rest
      else if c = '[' then found .list (c :: cs)
      else if c = '\x7b' then found .object (c :: cs)
      else .atNext .noValue (c :: cs)

/-- Reads a text. -/
def textValue : Reader String := fun s =>
  match h : skipBlank s with
  | [] => .error (.atNext .endInValue [])
  | c :: cs =>
      if c = '"' then
        (text cs).map fun t => (t.map String.ofList).widen (length_tail_le_of_skipBlank h)
      else .error (wrongType "a string" (c :: cs))

/-- Reads a text, or `null` for none. -/
def optionalText : Reader (Option String) := fun s =>
  match h : skipBlank s with
  | 'n' :: cs => (keyword ['u', 'l', 'l'] cs).map (·.reply (length_lt_of_skipBlank h) none)
  | _ => (textValue s).map (·.map some)

/-- Reads a list. -/
def listOf {α : Type} (item : Reader α) : Reader (List α) := fun s =>
  match h : skipBlank s with
  | [] => .error (.atNext .endInValue [])
  | c :: cs =>
      if c = '[' then (items item true cs).map (·.widen (length_tail_le_of_skipBlank h))
      else .error (wrongType "a sequence" (c :: cs))

/-- A field of a record that is being read into a draft. -/
structure Slot (δ : Type) where
  name : String
  /-- The draft has the field already. -/
  filled : δ → Bool
  /-- Reads the field. -/
  read : δ → Reader δ

/-- A slot for a field that a draft holds as an option. -/
def Slot.of {δ α : Type} (name : String) (get : δ → Option α) (set : δ → α → δ)
    (reader : Reader α) : Slot δ where
  name := name
  filled draft := (get draft).isSome
  read draft := fun s => (reader s).map (·.map (set draft))

/-- Where an object ends that breaks off: behind its brace, if that is next. -/
def brokenOff (s : List Char) : List Char :=
  match closeObject s with
  | .ok r => r.rest
  | .error _ => skipBlank s

/-- Reads the colon and the value of a member: a field that is not there yet, or anything under a
name that is no field. -/
def fieldOf {δ : Type} (slots : List (Slot δ)) (key : String) (draft : δ) : Reader δ := fun s =>
  let valueOf (reader : Reader δ) : Except Fault (Reply δ s) :=
    match colon s with
    | .error e => .error e
    | .ok ⟨t, ht⟩ => (reader t).map (·.widen ht)
  match slots.find? fun slot => slot.name == key with
  | some slot =>
      if slot.filled draft then .error (.before (.duplicateField key) (brokenOff s))
      else valueOf (slot.read draft)
  | none => valueOf fun t => (skip t).map (·.map fun _ => draft)

/-- Reads fields as the items of a list, in order. -/
def positional {δ : Type} :
    List (Slot δ) → Bool → δ → (s : List Char) → Except Fault (Reply δ s)
  | [], _, draft, s => (closeList s).map (·.map fun _ => draft)
  | slot :: slots, first, draft, s =>
      match nextItem first s with
      | .error e => .error e
      | .ok none => (closeList s).map (·.map fun _ => draft)
      | .ok (some ⟨t, ht⟩) =>
          match slot.read draft t with
          | .error e => .error e
          | .ok x =>
              (positional slots false x.value x.rest).map
                (·.widen (x.length_rest_le ht))

/-- How a record is written. -/
inductive Form where
  | object
  | list

/-- Reads a record into a draft. -/
def record {δ : Type} (expected : String) (slots : List (Slot δ)) (empty : δ) :
    Reader (Form × δ) := fun s =>
  match h : skipBlank s with
  | [] => .error (.atNext .endInValue [])
  | c :: cs =>
      if c = '\x7b' then
        (members (fieldOf slots) true empty cs).map fun x =>
          (x.map fun draft => (.object, draft)).widen (length_tail_le_of_skipBlank h)
      else if c = '[' then
        (positional slots true empty cs).map fun x =>
          (x.map fun draft => (.list, draft)).widen (length_tail_le_of_skipBlank h)
      else .error (wrongType expected (c :: cs))

end Phrasebook.Json

namespace Phrasebook.Settings

open Json (Reader Slot Fault textValue optionalText listOf record)

/-- The fields of a language that have been read. -/
structure LanguageDraft where
  shortcode : Option String := none
  name : Option (Option String) := none
  parent : Option (Option String) := none

/-- The fields of a language. -/
def languageSlots : List (Slot LanguageDraft) :=
  [.of "shortcode" (·.shortcode) (fun d v => { d with shortcode := some v }) textValue,
   .of "name" (·.name) (fun d v => { d with name := some v }) optionalText,
   .of "extends" (·.parent) (fun d v => { d with parent := some v }) optionalText]

/-- Reads a language. -/
def language : Reader LanguageEntry := fun s =>
  match record "struct LanguageConfig" languageSlots {} s with
  | .error e => .error e
  | .ok x =>
      match x.value with
      | (form, draft) =>
          match draft.shortcode with
          | some shortcode =>
              .ok (x.map fun _ => ⟨shortcode, draft.name.getD none, draft.parent.getD none⟩)
          | none =>
              match form with
              | .object => .error (.before (.missingField "shortcode") x.rest)
              | .list =>
                  .error (.before (.wrongLength 0 "struct LanguageConfig with 3 elements") x.rest)

/-- The runtime modules that have been read. -/
structure RuntimeDraft where
  interpolateModule : Option String := none
  metadataModule : Option String := none

/-- The fields of the runtime modules. -/
def runtimeSlots : List (Slot RuntimeDraft) :=
  [.of "interpolateModule" (·.interpolateModule)
     (fun d v => { d with interpolateModule := some v }) textValue,
   .of "metadataModule" (·.metadataModule)
     (fun d v => { d with metadataModule := some v }) textValue]

/-- Reads the runtime modules. -/
def runtimeModules : Reader Module.Runtime := fun s =>
  (record "struct RuntimeConfig" runtimeSlots {} s).map (·.map fun x =>
    ⟨x.2.interpolateModule.getD Module.Runtime.default.interpolateModule,
     x.2.metadataModule.getD Module.Runtime.default.metadataModule⟩)

/-- The settings that have been read. -/
structure Draft where
  translationsDir : Option String := none
  outputDir : Option String := none
  baseLanguage : Option String := none
  filePattern : Option String := none
  runtime : Option Module.Runtime := none
  languages : Option (List LanguageEntry) := none

/-- The fields of settings. -/
def slots : List (Slot Draft) :=
  [.of "translationsDir" (·.translationsDir) (fun d v => { d with translationsDir := some v })
     textValue,
   .of "outputDir" (·.outputDir) (fun d v => { d with outputDir := some v }) textValue,
   .of "baseLanguage" (·.baseLanguage) (fun d v => { d with baseLanguage := some v }) textValue,
   .of "translationFilePattern" (·.filePattern) (fun d v => { d with filePattern := some v })
     textValue,
   .of "runtime" (·.runtime) (fun d v => { d with runtime := some v }) runtimeModules,
   .of "languages" (·.languages) (fun d v => { d with languages := some v }) (listOf language)]

/-- The settings of a draft, with defaults for what it lacks. -/
def Draft.settings (d : Draft) : Settings where
  translationsDir := d.translationsDir.getD Settings.default.translationsDir
  outputDir := d.outputDir.getD Settings.default.outputDir
  baseLanguage := d.baseLanguage.getD Settings.default.baseLanguage
  filePattern := d.filePattern.getD Settings.default.filePattern
  runtime := d.runtime.getD Settings.default.runtime
  languages := d.languages.getD Settings.default.languages

/-- Reads settings. -/
def reader : Reader Settings := fun s =>
  (record "struct CatalogSettings" slots {} s).map (·.map fun x => x.2.settings)

/-- The settings that a text holds. -/
def ofText? (content : String) : Except Json.Error Settings :=
  Json.readWith reader content

/-- A text as a value, `null` for none. -/
def optionalToJson : Option String → Json.Value
  | some t => .text t
  | none => .null

/-- The value that stands for a language. -/
def languageToJson (l : LanguageEntry) : Json.Value :=
  .object
    [("shortcode", .text l.shortcode), ("name", optionalToJson l.name),
     ("extends", optionalToJson l.parent)]

/-- The document that holds settings. -/
def toDocument (s : Settings) : Json.Value :=
  .object
    [("translationsDir", .text s.translationsDir), ("outputDir", .text s.outputDir),
     ("baseLanguage", .text s.baseLanguage), ("translationFilePattern", .text s.filePattern),
     ("runtime", .object
       [("interpolateModule", .text s.runtime.interpolateModule),
        ("metadataModule", .text s.runtime.metadataModule)]),
     ("languages", .list (s.languages.map languageToJson))]

end Phrasebook.Settings
