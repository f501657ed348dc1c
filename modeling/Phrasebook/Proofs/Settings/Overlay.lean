import Phrasebook.Proofs.Settings.Record

/-!
# Proofs — Settings — Overlay

A document that says something of settings lies over the defaults (`Settings.ofText?_overlay`).  It
may leave out any of its members, at the top and in `runtime`, and the name or the parent of a
language that has none; its objects may have their members in any order and others besides
(`Json.Picks`).  The settings that are read have what the document says, and else the defaults
(`Settings.overlay`).  The whole document of settings (`Settings.toDocument`) is read as just them.
-/

namespace Phrasebook

open Json (Value Picks Slot Takes Tracks overlaid takes_textValue takes_optionalText)

/-! ### Languages -/

/-- What a document says of a language. -/
def LanguageEntry.fields (l : LanguageEntry) : List (String × Value) :=
  [("shortcode", .text l.shortcode), ("name", Settings.optionalToJson l.name),
   ("extends", Settings.optionalToJson l.parent)]

/-- An object for a language: it has the shortcode, and the name and the parent if there are. -/
structure LanguageEntry.IsWrittenAs (l : LanguageEntry) (members : List (String × Value)) :
    Prop where
  picks : Picks l.fields members
  shortcode : "shortcode" ∈ Entries.names members
  name : l.name ≠ none → "name" ∈ Entries.names members
  parent : l.parent ≠ none → "extends" ∈ Entries.names members

namespace Settings

/-- The draft of a language when the fields with these names have been read. -/
def languageDraft (l : LanguageEntry) (names : List String) : LanguageDraft where
  shortcode := overlaid names "shortcode" (some l.shortcode) none
  name := overlaid names "name" (some l.name) none
  parent := overlaid names "extends" (some l.parent) none

theorem tracks_languageDraft (l : LanguageEntry) :
    Tracks languageSlots l.fields (languageDraft l) where
  known := by
    refine .cons ⟨rfl, ?_⟩ (.cons ⟨rfl, ?_⟩ (.cons ⟨rfl, ?_⟩ .nil))
    · exact Slot.tracks_of (fun _ => rfl) (by simp [languageDraft])
        (takes_textValue l.shortcode)
    · exact Slot.tracks_of (fun _ => rfl) (by simp [languageDraft])
        (takes_optionalText l.name)
    · exact Slot.tracks_of (fun _ => rfl) (by simp [languageDraft])
        (takes_optionalText l.parent)
  unknown names name h := by
    simp only [languageSlots, List.forall_mem_cons, Slot.of] at h
    simp [languageDraft, h]

/-- What a language lacks may be missing or `null`. -/
theorem getD_overlaid_optional {names : List String} {name : String} {value : Option String}
    (h : value ≠ none → name ∈ names) :
    (overlaid names name (some value) none).getD none = value := by
  rw [Json.getD_overlaid]
  by_cases hname : name ∈ names
  · exact Json.overlaid_of_mem hname
  · rw [Json.overlaid_of_not_mem hname]
    exact (not_not.mp (mt h hname)).symm

/-- **A language is read** from every object for it. -/
theorem takes_language {l : LanguageEntry} {members : List (String × Value)}
    (h : l.IsWrittenAs members) : Takes language (.object members) l := by
  intro s rest hspells
  obtain ⟨_, hread⟩ := Json.outcome_eq_some_iff.mp
    ((tracks_languageDraft l).takes_record "struct LanguageConfig" h.picks s rest hspells)
  have hshortcode : (languageDraft l (Entries.names members)).shortcode = some l.shortcode :=
    Json.overlaid_of_mem h.shortcode
  rw [language, show ({} : LanguageDraft) = languageDraft l [] from rfl, hread]
  simp only [hshortcode]
  simp [languageDraft, Text.outcome, Json.Reply.map, getD_overlaid_optional h.name,
    getD_overlaid_optional h.parent]

/-! ### Runtime modules -/

/-- What a document says of the runtime modules. -/
def runtimeFields (r : Module.Runtime) : List (String × Value) :=
  [("interpolateModule", .text r.interpolateModule), ("metadataModule", .text r.metadataModule)]

/-- The runtime modules that members with these names say, over the defaults. -/
def overlayRuntime (r : Module.Runtime) (names : List String) : Module.Runtime where
  interpolateModule :=
    overlaid names "interpolateModule" r.interpolateModule Module.Runtime.default.interpolateModule
  metadataModule :=
    overlaid names "metadataModule" r.metadataModule Module.Runtime.default.metadataModule

/-- The draft of the runtime modules when the fields with these names have been read. -/
def runtimeDraft (r : Module.Runtime) (names : List String) : RuntimeDraft where
  interpolateModule := overlaid names "interpolateModule" (some r.interpolateModule) none
  metadataModule := overlaid names "metadataModule" (some r.metadataModule) none

theorem tracks_runtimeDraft (r : Module.Runtime) :
    Tracks runtimeSlots (runtimeFields r) (runtimeDraft r) where
  known := by
    refine .cons ⟨rfl, ?_⟩ (.cons ⟨rfl, ?_⟩ .nil)
    · exact Slot.tracks_of (fun _ => rfl) (by simp [runtimeDraft])
        (takes_textValue r.interpolateModule)
    · exact Slot.tracks_of (fun _ => rfl) (by simp [runtimeDraft])
        (takes_textValue r.metadataModule)
  unknown names name h := by
    simp only [runtimeSlots, List.forall_mem_cons, Slot.of] at h
    simp [runtimeDraft, h]

/-- **The runtime modules are read** over the defaults. -/
theorem takes_runtimeModules {r : Module.Runtime} {members : List (String × Value)}
    (h : Picks (runtimeFields r) members) :
    Takes runtimeModules (.object members) (overlayRuntime r (Entries.names members)) := by
  intro s rest hspells
  obtain ⟨_, hread⟩ := Json.outcome_eq_some_iff.mp
    ((tracks_runtimeDraft r).takes_record "struct RuntimeConfig" h s rest hspells)
  rw [runtimeModules, show ({} : RuntimeDraft) = runtimeDraft r [] from rfl, hread]
  simp [runtimeDraft, overlayRuntime, Text.outcome, Json.Reply.map, Except.map]

/-! ### Settings -/

/-- What a document says of settings, with its object for the runtime modules and its objects for
the languages. -/
def fields (s : Settings) (runtime : List (String × Value))
    (languages : List (List (String × Value))) : List (String × Value) :=
  [("translationsDir", .text s.translationsDir), ("outputDir", .text s.outputDir),
   ("baseLanguage", .text s.baseLanguage), ("translationFilePattern", .text s.filePattern),
   ("runtime", .object runtime), ("languages", .list (languages.map .object))]

/-- An object for settings, which says some of what there is to say of them, with its object for
the runtime modules, which says some, and its objects for the languages, which say all. -/
structure IsWrittenAs (s : Settings) (members runtime : List (String × Value))
    (languages : List (List (String × Value))) : Prop where
  picks : Picks (s.fields runtime languages) members
  runtime : Picks (runtimeFields s.runtime) runtime
  languages : List.Forall₂ LanguageEntry.IsWrittenAs s.languages languages

/-- The settings that members with these names say, over the defaults. -/
def overlay (s : Settings) (names runtimeNames : List String) : Settings where
  translationsDir :=
    overlaid names "translationsDir" s.translationsDir Settings.default.translationsDir
  outputDir := overlaid names "outputDir" s.outputDir Settings.default.outputDir
  baseLanguage := overlaid names "baseLanguage" s.baseLanguage Settings.default.baseLanguage
  filePattern := overlaid names "translationFilePattern" s.filePattern Settings.default.filePattern
  runtime := overlaid names "runtime" (overlayRuntime s.runtime runtimeNames)
    Settings.default.runtime
  languages := overlaid names "languages" s.languages Settings.default.languages

/-- The draft of settings when the fields with these names have been read. -/
def draft (s : Settings) (runtimeNames names : List String) : Draft where
  translationsDir := overlaid names "translationsDir" (some s.translationsDir) none
  outputDir := overlaid names "outputDir" (some s.outputDir) none
  baseLanguage := overlaid names "baseLanguage" (some s.baseLanguage) none
  filePattern := overlaid names "translationFilePattern" (some s.filePattern) none
  runtime := overlaid names "runtime" (some (overlayRuntime s.runtime runtimeNames)) none
  languages := overlaid names "languages" (some s.languages) none

/-- **Languages are read** from every list of objects for them. -/
theorem takes_languages {entries : List LanguageEntry} {languages : List (List (String × Value))}
    (h : List.Forall₂ LanguageEntry.IsWrittenAs entries languages) :
    Takes (Json.listOf language) (.list (languages.map .object)) entries := by
  refine Json.takes_listOf (List.forall₂_map_left_iff.mpr ?_)
  exact h.flip.imp fun members l => takes_language

theorem tracks_draft {s : Settings} {members runtime : List (String × Value)}
    {languages : List (List (String × Value))} (h : s.IsWrittenAs members runtime languages) :
    Tracks slots (s.fields runtime languages) (s.draft (Entries.names runtime)) where
  known := by
    refine .cons ⟨rfl, ?_⟩ (.cons ⟨rfl, ?_⟩ (.cons ⟨rfl, ?_⟩ (.cons ⟨rfl, ?_⟩
      (.cons ⟨rfl, ?_⟩ (.cons ⟨rfl, ?_⟩ .nil)))))
    · exact Slot.tracks_of (fun _ => rfl) (by simp [draft])
        (takes_textValue s.translationsDir)
    · exact Slot.tracks_of (fun _ => rfl) (by simp [draft]) (takes_textValue s.outputDir)
    · exact Slot.tracks_of (fun _ => rfl) (by simp [draft])
        (takes_textValue s.baseLanguage)
    · exact Slot.tracks_of (fun _ => rfl) (by simp [draft])
        (takes_textValue s.filePattern)
    · exact Slot.tracks_of (fun _ => rfl) (by simp [draft])
        (takes_runtimeModules h.runtime)
    · exact Slot.tracks_of (fun _ => rfl) (by simp [draft])
        (takes_languages h.languages)
  unknown names name hname := by
    simp only [slots, List.forall_mem_cons, Slot.of] at hname
    simp [draft, hname]

/-- **Settings are read** over the defaults. -/
theorem takes_reader {s : Settings} {members runtime : List (String × Value)}
    {languages : List (List (String × Value))} (h : s.IsWrittenAs members runtime languages) :
    Takes reader (.object members)
      (s.overlay (Entries.names members) (Entries.names runtime)) := by
  intro chars rest hspells
  obtain ⟨_, hread⟩ := Json.outcome_eq_some_iff.mp
    ((tracks_draft h).takes_record "struct CatalogSettings" h.picks chars rest hspells)
  rw [reader, show ({} : Draft) = s.draft (Entries.names runtime) [] from rfl, hread]
  simp [draft, Draft.settings, overlay, Text.outcome, Json.Reply.map, Except.map]

theorem ofText?_of_takes {v : Value} {s : Settings} {content : String} (h : Takes reader v s)
    (hcontent : v.IsTextOf content) : ofText? content = .ok s := by
  obtain ⟨rest, hspells, hrest⟩ := hcontent
  obtain ⟨_, hread⟩ := Json.outcome_eq_some_iff.mp (h _ _ hspells)
  have hblank : Json.skipBlank rest = [] := hrest.skipBlank_eq_skipBlank
  rw [ofText?, Json.readWith, hread]
  simp [Except.bind, Json.finish, hblank]

/-! ### Whole documents -/

theorem toDocument_eq (s : Settings) :
    s.toDocument = .object
      (s.fields (runtimeFields s.runtime) (s.languages.map LanguageEntry.fields)) := by
  simp only [toDocument, fields, List.map_map]
  rfl

theorem isWrittenAs_fields (s : Settings) :
    s.IsWrittenAs (s.fields (runtimeFields s.runtime) (s.languages.map LanguageEntry.fields))
      (runtimeFields s.runtime) (s.languages.map LanguageEntry.fields) where
  picks := Json.picks_self (by simp [fields, Entries.names])
  runtime := Json.picks_self (by simp [runtimeFields, Entries.names])
  languages := by
    refine List.forall₂_map_right_iff.mpr (List.forall₂_same.mpr fun l _ => ?_)
    exact ⟨Json.picks_self (by simp [LanguageEntry.fields, Entries.names]),
      by simp [LanguageEntry.fields, Entries.names], by simp [LanguageEntry.fields, Entries.names],
      by simp [LanguageEntry.fields, Entries.names]⟩

/-- Nothing of the defaults is left under all members. -/
theorem overlay_names_fields (s : Settings) :
    s.overlay
      (Entries.names (s.fields (runtimeFields s.runtime) (s.languages.map LanguageEntry.fields)))
      (Entries.names (runtimeFields s.runtime)) = s := by
  simp [overlay, overlayRuntime, overlaid, fields, runtimeFields, Entries.names]

theorem isWritable_optionalToJson (t : Option String) : (optionalToJson t).IsWritable := by
  cases t with
  | none => exact Value.isWritable_null
  | some t => exact Value.isWritable_text t

theorem isWritable_languageToJson (l : LanguageEntry) : (languageToJson l).IsWritable :=
  Value.isWritable_object (by
    simp [Value.isWritable_text, isWritable_optionalToJson])

theorem isWritable_toDocument (s : Settings) : s.toDocument.IsWritable := by
  have hruntime : Value.IsWritable (.object (runtimeFields s.runtime)) :=
    Value.isWritable_object (by simp [runtimeFields, Value.isWritable_text])
  have hlanguages : Value.IsWritable (.list (s.languages.map languageToJson)) :=
    Value.isWritable_list (by simp [isWritable_languageToJson])
  refine Value.isWritable_object ?_
  simp only [List.forall_mem_cons, List.not_mem_nil, false_implies, implies_true, and_true,
    Value.isWritable_text, true_and]
  exact ⟨hruntime, hlanguages⟩

/-- **Settings in a document lie over the defaults.**  From any text of an object that says some of
what there is to say of settings, in any order and with other members between, come the settings
with what it says and the defaults for what it leaves out.  The whole document of settings has a
text, and from any text of it come the settings themselves. -/
theorem ofText?_overlay (s : Settings) :
    (∀ members runtime languages content, s.IsWrittenAs members runtime languages →
        (Value.object members).IsTextOf content →
        ofText? content = .ok (s.overlay (Entries.names members) (Entries.names runtime))) ∧
      (∃ content, s.toDocument.IsTextOf content) ∧
      ∀ content, s.toDocument.IsTextOf content → ofText? content = .ok s := by
  refine ⟨fun members runtime languages content h hcontent =>
    ofText?_of_takes (takes_reader h) hcontent, s.isWritable_toDocument.exists_isTextOf,
    fun content hcontent => ?_⟩
  have htakes := takes_reader s.isWrittenAs_fields
  rw [overlay_names_fields, ← toDocument_eq] at htakes
  exact ofText?_of_takes htakes hcontent

/-- Settings that differ from the defaults. -/
def sample : Settings where
  translationsDir := "texts"
  outputDir := "out"
  baseLanguage := "de"
  filePattern := "*.txt"
  runtime := ⟨"i", "m"⟩
  languages := [⟨"de", none, none⟩]

/-- Members that say something of the sample, and one that nobody knows. -/
def sampleMembers : List (String × Value) :=
  [("x", .number (.natural 1)), ("languages", .list [.object [("shortcode", .text "de")]]),
   ("runtime", .object [("metadataModule", .text "m")])]

/-- A text of the members. -/
def sampleContent : String :=
  "\x7b \"x\": 1, \"languages\": [\x7b\"shortcode\": \"de\"\x7d],\n" ++
    " \"runtime\": \x7b\"metadataModule\": \"m\"\x7d \x7d\n"

theorem isWrittenAs_sampleMembers : sample.IsWrittenAs sampleMembers
    [("metadataModule", .text "m")] [[("shortcode", .text "de")]] where
  picks := by
    have hothers : ∀ m ∈ [("x", Value.number (.natural 1))],
        m.1 ∉ Entries.names (sample.fields [("metadataModule", .text "m")]
          [[("shortcode", .text "de")]]) := by
      simp [fields, Entries.names]
    exact Json.picks_of_perm (by simp [fields, Entries.names])
      (.cons _ (.cons _ (.cons _ (.cons _ (List.Sublist.refl _))))) hothers
      (List.reverse_perm sampleMembers).symm
  runtime := Json.picks_of_perm (by simp [runtimeFields, Entries.names])
    (.cons _ (List.Sublist.refl _)) (List.forall_mem_nil _) (List.Perm.refl _)
  languages := by
    refine .cons ⟨?_, by simp [Entries.names], by simp, by simp⟩ .nil
    exact Json.picks_of_perm (by simp [LanguageEntry.fields, Entries.names])
      ((List.nil_sublist _).cons_cons _) (List.forall_mem_nil _) (List.Perm.refl _)

theorem isTextOf_sampleContent : (Value.object sampleMembers).IsTextOf sampleContent := by
  have hone : Json.Numeral.Spells ⟨false, ['1'], none, none⟩ ['1'] :=
    .of ⟨⟨by simp, rfl⟩, by simp, by simp, by simp⟩ .none
  have hvalue : ∀ y, Json.Numeral.value ⟨false, ['1'], none, none⟩ = .ok y → y = .natural 1 := by
    intro y h; cases h; rfl
  have hend : Json.EndsNumber (sampleContent.toList.drop 8) := by intro c h; cases h; decide
  refine ⟨['\n'], .object ⟨[], rfl, rfl⟩ ?_, ⟨['\n'], rfl, rfl⟩⟩
  refine .cons .first ⟨[' '], rfl, rfl⟩ (Text.spellsChars_flatMap_escape _ ['x']) ⟨[], rfl, rfl⟩
    (.number ⟨[' '], rfl, rfl⟩ hone hvalue hend) ?_
  refine .cons (.comma ⟨[], rfl, rfl⟩) ⟨[' '], rfl, rfl⟩
    (Text.spellsChars_flatMap_escape _ "languages".toList) ⟨[], rfl, rfl⟩
    (.list ⟨[' '], rfl, rfl⟩ (.cons .first (.object ⟨[], rfl, rfl⟩
      (.cons .first ⟨[], rfl, rfl⟩ (Text.spellsChars_flatMap_escape _ "shortcode".toList)
        ⟨[], rfl, rfl⟩ (.text ⟨[' '], rfl, rfl⟩ (Text.spellsChars_flatMap_escape _ "de".toList))
        (.close ⟨[], rfl, rfl⟩))) (.close ⟨[], rfl, rfl⟩))) ?_
  exact .cons (.comma ⟨[], rfl, rfl⟩) ⟨['\n', ' '], rfl, rfl⟩
    (Text.spellsChars_flatMap_escape _ "runtime".toList) ⟨[], rfl, rfl⟩
    (.object ⟨[' '], rfl, rfl⟩
      (.cons .first ⟨[], rfl, rfl⟩ (Text.spellsChars_flatMap_escape _ "metadataModule".toList)
        ⟨[], rfl, rfl⟩ (.text ⟨[' '], rfl, rfl⟩ (Text.spellsChars_flatMap_escape _ "m".toList))
        (.close ⟨[], rfl, rfl⟩))) (.close ⟨[' '], rfl, rfl⟩)

theorem sample_ofText?_overlay :
    ofText? sampleContent = .ok { Settings.default with
      runtime := ⟨Module.Runtime.default.interpolateModule, "m"⟩
      languages := [⟨"de", none, none⟩] } :=
  (ofText?_overlay sample).1 _ _ _ _ isWrittenAs_sampleMembers isTextOf_sampleContent

end Settings

end Phrasebook
