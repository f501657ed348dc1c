import Phrasebook.Proofs.Payload.Faults
import Phrasebook.Proofs.Payload.Writing

/-!
# Proofs — Payload — Round trip

A payload that is written as a document and read again (`Payload.ofFile?_toDocument`).  Every
translation comes back, except that a node can look like a template (`LooksLikeTemplate`): it is
written as a template would be and read as one.  The payload itself is never read as a template,
whatever it looks like.
-/

namespace Phrasebook

/-! ### Translations as values -/

theorem get?_entriesToJson (name : String) (entries : List (String × Translation)) :
    Entries.get? name (entriesToJson entries) =
      (Entries.get? name entries).map Translation.toJson := by
  induction entries with
  | nil => rfl
  | cons e rest ih =>
      rw [entriesToJson, Entries.get?, Entries.get?, ih]
      split <;> rfl

theorem Translation.toJson_eq_text_iff {t : Translation} {text : String} :
    t.toJson = .text text ↔ t = .literal text := by
  cases t <;> simp [Translation.toJson]

/-- What a template is written as is shaped like one. -/
theorem isTemplateShaped_template (text : String) (args : Json.Value) :
    Json.IsTemplateShaped [(textField, .text text), (argsField, args)] where
  text := ⟨text, rfl⟩
  names := by simp [Entries.names]

/-! ### Nodes that look like templates -/

/-- There is a literal `value`, and besides at most `args`. -/
structure LooksLikeTemplate (node : List (String × Translation)) : Prop where
  text : ∃ t, Entries.get? textField node = some (.literal t)
  names : ∀ name ∈ Entries.names node, name = textField ∨ name = argsField

theorem isTemplateShaped_entriesToJson_iff {node : List (String × Translation)} :
    Json.IsTemplateShaped (entriesToJson node) ↔ LooksLikeTemplate node := by
  have htext : (∃ t, Entries.get? textField (entriesToJson node) = some (.text t)) ↔
      ∃ t, Entries.get? textField node = some (.literal t) := by
    simp [get?_entriesToJson, Translation.toJson_eq_text_iff]
  constructor
  · intro h
    exact ⟨htext.mp h.text, names_entriesToJson node ▸ h.names⟩
  · intro h
    exact ⟨htext.mpr h.text, (names_entriesToJson node).symm ▸ h.names⟩

instance (node : List (String × Translation)) : Decidable (LooksLikeTemplate node) :=
  decidable_of_iff _ isTemplateShaped_entriesToJson_iff

/-! ### What is read -/

/-- Members are read one after the other. -/
theorem entriesOfJson?_cons_eq_ok_iff {path : EntryPath} {name : String} {v : Json.Value}
    {rest : List (String × Json.Value)} {found : List (String × Translation)} :
    entriesOfJson? path ((name, v) :: rest) = .ok found ↔
      ∃ t others, Translation.ofJson? (path ++ [name]) v = .ok t ∧
        entriesOfJson? path rest = .ok others ∧ (name, t) :: others = found := by
  rw [entriesOfJson?]
  cases Translation.ofJson? (path ++ [name]) v <;> simp [map_eq_ok_iff]

/-- The names of members are the names of the entries that are read from them. -/
theorem names_of_entriesOfJson? {path : EntryPath} :
    ∀ {members : List (String × Json.Value)} {found : List (String × Translation)},
      entriesOfJson? path members = .ok found → Entries.names found = Entries.names members
  | [], _, h => by
      cases h
      rfl
  | (name, v) :: rest, found, h => by
      obtain ⟨t, others, -, hrest, rfl⟩ := entriesOfJson?_cons_eq_ok_iff.mp h
      exact congrArg (name :: ·) (names_of_entriesOfJson? hrest)

/-- Entries with distinct names are read just if they are the members, one by one. -/
theorem map_ofList_entriesOfJson?_eq_ok_iff {path : EntryPath}
    {members : List (String × Json.Value)} {entries : List (String × Translation)}
    (h : (Entries.names members).Nodup) :
    (entriesOfJson? path members).map Entries.ofList = .ok entries ↔
      entriesOfJson? path members = .ok entries := by
  cases hfound : entriesOfJson? path members with
  | error fault => exact Iff.rfl
  | ok found =>
      have hnames : (Entries.names found).Nodup := names_of_entriesOfJson? hfound ▸ h
      rw [Except.map, Entries.ofList_of_nodup hnames]

mutual

/-- **A translation comes back** from the value that it is written as just if no node of it looks
like a template. -/
theorem ofJson?_toJson_iff (path : EntryPath) :
    ∀ {t : Translation}, t.EveryNode (fun node => (Entries.names node).Nodup) →
      (Translation.ofJson? path t.toJson = .ok t ↔ t.EveryNode (¬ LooksLikeTemplate ·))
  | .literal text, _ => ⟨fun _ => Translation.everyNode_literal, fun _ => rfl⟩
  | .template text params, _ => by
      refine ⟨fun _ => Translation.everyNode_template, fun _ => ?_⟩
      have htext := Json.templateText?_eq_some_iff.mpr
        ⟨rfl, isTemplateShaped_template text (.list (params.map .text))⟩
      have hparams : templateParams path
          [(textField, .text text), (argsField, .list (params.map .text))] = .ok params :=
        argTexts_map_text path params
      rw [Translation.toJson, Translation.ofJson?, htext]
      simp only [hparams]
      rfl
  | .node entries, hproper => by
      obtain ⟨hnames, hnodes⟩ := Translation.everyNode_node.mp hproper
      rw [Translation.toJson, Translation.ofJson?, Translation.everyNode_node]
      by_cases hshape : LooksLikeTemplate entries
      · -- what looks like a template is read as one, or not at all
        have hjson := isTemplateShaped_entriesToJson_iff.mpr hshape
        obtain ⟨text, htext⟩ := hjson.text
        rw [Json.templateText?_eq_some_iff.mpr ⟨htext, hjson⟩]
        simp [map_eq_ok_iff, hshape]
      · rw [Json.templateText?_eq_none_iff.mpr (mt isTemplateShaped_entriesToJson_iff.mp hshape)]
        have hread : (entriesOfJson? path (entriesToJson entries)).map Entries.ofList =
            .ok entries ↔ entriesOfJson? path (entriesToJson entries) = .ok entries :=
          map_ofList_entriesOfJson?_eq_ok_iff ((names_entriesToJson entries).symm ▸ hnames)
        rw [← entriesOfJson?_entriesToJson_iff path hnodes, ← hread]
        simp [map_eq_ok_iff, hshape]

/-- **Entries come back** just if no node in them looks like a template. -/
theorem entriesOfJson?_entriesToJson_iff (path : EntryPath) :
    ∀ {entries : List (String × Translation)},
      Payload.EveryNode (fun node => (Entries.names node).Nodup) entries →
      (entriesOfJson? path (entriesToJson entries) = .ok entries ↔
        Payload.EveryNode (¬ LooksLikeTemplate ·) entries)
  | [], _ => ⟨fun _ => Payload.everyNode_nil, fun _ => rfl⟩
  | (name, t) :: rest, hproper => by
      obtain ⟨ht, hrest⟩ := Payload.everyNode_cons.mp hproper
      rw [entriesToJson, entriesOfJson?_cons_eq_ok_iff, Payload.everyNode_cons,
        ← ofJson?_toJson_iff (path ++ [name]) ht, ← entriesOfJson?_entriesToJson_iff path hrest]
      simp

end

/-! ### Names of what is read -/

theorem everyNode_ofList {P : List (String × Translation) → Prop}
    {found : List (String × Translation)} (h : Payload.EveryNode P found) :
    Payload.EveryNode P (Entries.ofList found) :=
  Payload.everyNode_iff.mpr fun e he => Payload.everyNode_iff.mp h e (Entries.mem_of_mem_ofList he)

mutual

/-- The nodes of a translation that is read have distinct names. -/
theorem everyNode_of_ofJson? {path : EntryPath} :
    ∀ {v : Json.Value} {t : Translation}, Translation.ofJson? path v = .ok t →
      t.EveryNode fun node => (Entries.names node).Nodup
  | .text _, _, h => by
      cases h
      exact Translation.everyNode_literal
  | .object members, t, h => by
      rw [Translation.ofJson?] at h
      split at h
      · obtain ⟨params, -, rfl⟩ := map_eq_ok_iff.mp h
        exact Translation.everyNode_template
      · obtain ⟨found, hfound, rfl⟩ := map_eq_ok_iff.mp h
        exact Translation.everyNode_node.mpr
          ⟨Entries.nodup_names_ofList, everyNode_ofList (everyNode_of_entriesOfJson? hfound)⟩
  | .null, _, h | .bool _, _, h | .number _, _, h | .list _, _, h => by cases h

theorem everyNode_of_entriesOfJson? {path : EntryPath} :
    ∀ {members : List (String × Json.Value)} {found : List (String × Translation)},
      entriesOfJson? path members = .ok found →
        Payload.EveryNode (fun node => (Entries.names node).Nodup) found
  | [], _, h => by
      cases h
      exact Payload.everyNode_nil
  | (name, v) :: rest, found, h => by
      obtain ⟨t, others, hv, hrest, rfl⟩ := entriesOfJson?_cons_eq_ok_iff.mp h
      exact Payload.everyNode_cons.mpr ⟨everyNode_of_ofJson? hv, everyNode_of_entriesOfJson? hrest⟩

end

/-! ### What is refused -/

/-- The entries of a translation that has been written have been written. -/
theorem Translation.node?_toJson {t : Translation} {members : List (String × Json.Value)}
    (h : t.toJson.node? = some members) : ∃ entries, members = entriesToJson entries := by
  cases t with
  | literal text => cases h
  | template text params =>
      rw [toJson, Json.Value.node?, if_pos (isTemplateShaped_template _ _)] at h
      cases h
  | node entries =>
      rw [toJson, Json.Value.node?] at h
      split_ifs at h
      exact ⟨entries, (Option.some.inj h).symm⟩

/-- Whatever stands in entries that have been written is a translation that has been written. -/
theorem exists_toJson_of_entryAt {members : List (String × Json.Value)} {path : EntryPath}
    {v : Json.Value} (h : EntryAt Json.Value.node? members path v) :
    ∀ {entries : List (String × Translation)}, members = entriesToJson entries →
      ∃ t : Translation, v = t.toJson := by
  have hmember : ∀ {entries : List (String × Translation)} {name : String} {v : Json.Value},
      (name, v) ∈ entriesToJson entries → ∃ t : Translation, v = t.toJson := by
    intro entries name v hmem
    rw [entriesToJson_eq_map] at hmem
    obtain ⟨e, -, heq⟩ := List.mem_map.mp hmem
    exact ⟨e.2, (Prod.mk.inj heq).2.symm⟩
  induction h with
  | here hmem =>
      rintro entries rfl
      exact hmember hmem
  | inside hmem hinner _ ih =>
      rintro entries rfl
      obtain ⟨t, rfl⟩ := hmember hmem
      obtain ⟨inner, hinner⟩ := Translation.node?_toJson hinner
      exact ih hinner

/-- A translation that has been written is a text or an object, so that of entries that have been
written nothing but the `args` of a template can be refused. -/
theorem exists_invalidArgs_of_entriesOfJson? {entries : List (String × Translation)}
    {fault : PayloadFault} (h : entriesOfJson? [] (entriesToJson entries) = .error fault) :
    ∃ path problem, fault = .invalidArgs path problem := by
  obtain ⟨before, e, after, hsplit, -, hfault⟩ :=
    (reports_entriesOfJson? [] (entriesToJson entries)).eq_error_iff_first.mp h
  have hmem : e ∈ Json.entriesIn [] (entriesToJson entries) := by
    simp [hsplit]
  obtain ⟨place, -, hat⟩ := Json.mem_entriesIn_iff.mp hmem
  obtain ⟨t, ht⟩ := exists_toJson_of_entryAt hat rfl
  cases Json.PlacedValue.fault?_eq_some_iff.mp hfault with
  | unsupported hkind =>
      rw [ht] at hkind
      cases t <;> simp [Translation.toJson, Json.Value.kind] at hkind
  | itemNotText => exact ⟨_, _, rfl⟩
  | notList => exact ⟨_, _, rfl⟩

/-! ### Files -/

namespace Payload

/-- Every payload that is read has distinct names. -/
theorem isProper_of_ofFile? {content : String} {payload : Payload}
    (h : ofFile? content = .ok payload) : payload.IsProper := by
  rcases exists_entries_or_refused content with
    ⟨members, entries, hread, hentries⟩ | ⟨fault, hfault, -⟩
  · rw [ofFile?_of_read hread hentries] at h
    cases hfound : entriesOfJson? [] entries with
    | error fault => rw [hfound] at h; cases h
    | ok found =>
        rw [hfound] at h
        obtain rfl := Except.ok.inj h
        exact ⟨Entries.nodup_names_ofList, everyNode_ofList (everyNode_of_entriesOfJson? hfound)⟩
  · rw [hfault] at h
    cases h

/-- **Reading undoes writing, and exactly where it can.**  The document of a payload, which names
every entry once, can be written as a text if it is not nested too deep.  Whatever text the document
is read from, the text has this payload just if no node below the root looks like a template; if one
does, it has another payload, or is refused for the `args` of a template. -/
theorem ofFile?_toDocument {payload : Payload} (hproper : payload.IsProper) :
    (payload.toDocument.depth ≤ Json.depthLimit →
        Json.read payload.written = .ok payload.toDocument) ∧
      ∀ content, Json.read content = .ok payload.toDocument →
        (ofFile? content = .ok payload ↔
          ∀ path node, EntryAt Translation.node? payload path (.node node) →
            ¬ LooksLikeTemplate node) ∧
        ∀ path node, EntryAt Translation.node? payload path (.node node) →
          LooksLikeTemplate node →
            (∃ other, other ≠ payload ∧ ofFile? content = .ok other) ∨
            ∃ place problem, ofFile? content = .error (.payload (.invalidArgs place problem)) := by
  refine ⟨read_written hproper, fun content hread => ?_⟩
  have hfile : ofFile? content =
      ((entriesOfJson? [] (entriesToJson payload)).map Entries.ofList).mapError .payload :=
    ofFile?_of_read hread rfl
  have hback : ofFile? content = .ok payload ↔ EveryNode (¬ LooksLikeTemplate ·) payload := by
    rw [← entriesOfJson?_entriesToJson_iff [] hproper.nodes,
      ← map_ofList_entriesOfJson?_eq_ok_iff ((names_entriesToJson payload).symm ▸ hproper.names),
      hfile]
    cases entriesOfJson? [] (entriesToJson payload) <;> simp [Except.map, Except.mapError]
  refine ⟨hback, fun path node hnode hlooks => ?_⟩
  cases hfound : entriesOfJson? [] (entriesToJson payload) with
  | error fault =>
      obtain ⟨place, problem, rfl⟩ := exists_invalidArgs_of_entriesOfJson? hfound
      rw [hfound] at hfile
      exact .inr ⟨place, problem, hfile⟩
  | ok found =>
      rw [hfound] at hfile
      refine .inl ⟨Entries.ofList found, fun hsame => ?_, hfile⟩
      exact hback.mp (hsame ▸ hfile) path node hnode hlooks

/-- A payload that itself looks like a template, with a node that does not. -/
def unlikeSample : Payload :=
  [("value", .literal "x"),
    ("args", .node [("value", .literal "y"),
      ("greeting", .template "Hi \x7b\x7bname\x7d\x7d" ["name"])])]

/-- A payload with a node that looks like a template. -/
def alikeSample : Payload :=
  [("greeting", .node [("value", .literal "Hi"), ("args", .literal "name")])]

theorem sample_ofFile?_toDocument :
    (unlikeSample.IsProper ∧ ∃ content, Json.read content = .ok unlikeSample.toDocument ∧
        ofFile? content = .ok unlikeSample) ∧
      alikeSample.IsProper ∧ ∃ content, Json.read content = .ok alikeSample.toDocument ∧
        ofFile? content ≠ .ok alikeSample := by
  have hunlike : unlikeSample.IsProper := ⟨by decide, by simp [unlikeSample, Entries.names]⟩
  have halike : alikeSample.IsProper := ⟨by decide, by simp [alikeSample, Entries.names]⟩
  have hreadUnlike := (ofFile?_toDocument hunlike).1 (by decide)
  have hreadAlike := (ofFile?_toDocument halike).1 (by decide)
  refine ⟨⟨hunlike, _, hreadUnlike, ?_⟩, halike, _, hreadAlike, ?_⟩
  · have hnodes : EveryNode (¬ LooksLikeTemplate ·) unlikeSample := by
      simp only [unlikeSample, everyNode_cons, everyNode_nil, Translation.everyNode_literal,
        Translation.everyNode_template, Translation.everyNode_node, and_true, true_and]
      decide
    exact ((ofFile?_toDocument hunlike).2 _ hreadUnlike).1.mpr hnodes
  · intro hback
    have hnodes : EveryNode (¬ LooksLikeTemplate ·) alikeSample :=
      ((ofFile?_toDocument halike).2 _ hreadAlike).1.mp hback
    simp only [alikeSample, everyNode_cons, Translation.everyNode_node] at hnodes
    exact hnodes.1.1 (by decide)

end Payload

end Phrasebook
