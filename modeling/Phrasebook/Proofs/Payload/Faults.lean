import Phrasebook.Payload.File
import Phrasebook.Proofs.Entries
import Phrasebook.Proofs.FirstFault

/-!
# Proofs — Payload — Faults

Why the payload of a document is refused, and for which of its entries.  The entries of an object
are its members, and those of the objects among them, unless such an object is shaped like a
template (`Json.Value.node?`); `Json.entriesIn` lists them in document order, each with the names
that lead to it.  Some values are bad in entry position (`Json.Value.IsBad`), and `Offends` says
which fault such a value is.  A document has a payload if none of its entries is bad, and else it is
refused for the first that is (`Payload.ofFile?_verdict`).
-/

namespace Phrasebook

namespace Json

/-! ### Entries of a document -/

/-- The members of a template: there is a text `value`, and besides at most `args`. -/
structure IsTemplateShaped (members : Entries Value) : Prop where
  text : ∃ t, members.get? textField = some (.text t)
  names : ∀ name ∈ members.names, name = textField ∨ name = argsField

theorem templateText?_eq_some_iff {members : Entries Value} {t : String} :
    templateText? members = some t ↔
      members.get? textField = some (.text t) ∧ IsTemplateShaped members := by
  have hnames : (members.names.all fun name => name == textField || name == argsField) = true ↔
      ∀ name ∈ members.names, name = textField ∨ name = argsField := by
    simp
  unfold templateText?
  split
  next t' htext =>
    split_ifs with hall
    · rw [hnames] at hall
      simp only [Option.some.injEq, htext, Value.text.injEq]
      exact ⟨fun h => ⟨h, ⟨⟨t', htext⟩, hall⟩⟩, fun h => h.1⟩
    · simp only [false_iff, not_and]
      exact fun _ hshape => hall (hnames.mpr hshape.names)
  next hnone =>
    simp only [reduceCtorEq, false_iff, not_and]
    exact fun htext => absurd htext (hnone t)

theorem templateText?_eq_none_iff {members : Entries Value} :
    templateText? members = none ↔ ¬ IsTemplateShaped members := by
  rw [Option.eq_none_iff_forall_ne_some]
  constructor
  · rintro hnone hshape
    obtain ⟨t, htext⟩ := hshape.text
    exact hnone t (templateText?_eq_some_iff.mpr ⟨htext, hshape⟩)
  · intro hshape t ht
    exact hshape (templateText?_eq_some_iff.mp ht).2

instance (members : Entries Value) : Decidable (IsTemplateShaped members) :=
  decidable_of_iff (¬ templateText? members = none) (by rw [templateText?_eq_none_iff, not_not])

/-- The entries inside of an object that is not shaped like a template. -/
def Value.node? : Value → Option (List (String × Value))
  | .object members => if IsTemplateShaped members then none else some members
  | _ => none

/-- A value, and the names that lead to it. -/
structure PlacedValue where
  path : EntryPath
  value : Value

mutual

/-- A value in entry position, and the entries inside of it. -/
def Value.entries (path : EntryPath) : Value → List PlacedValue
  | .object members =>
      ⟨path, .object members⟩ ::
        if IsTemplateShaped members then [] else entriesIn path members
  | v => [⟨path, v⟩]

/-- The entries of an object, in document order. -/
def entriesIn (path : EntryPath) : List (String × Value) → List PlacedValue
  | [] => []
  | (name, v) :: rest => v.entries (path ++ [name]) ++ entriesIn path rest

end

mutual

/-- The entries of a value are the value, and those inside of it. -/
theorem Value.mem_entries_iff {placed : PlacedValue} :
    ∀ {v : Value} {path : EntryPath}, placed ∈ v.entries path ↔
      (placed.path = path ∧ placed.value = v) ∨
        ∃ inner rest, v.node? = some inner ∧ placed.path = path ++ rest ∧
          EntryAt Value.node? inner rest placed.value
  | .object members, path => by
      obtain ⟨path', v'⟩ := placed
      by_cases hshape : IsTemplateShaped members
      · simp [Value.entries, Value.node?, hshape]
      · simp [Value.entries, Value.node?, hshape, mem_entriesIn_iff]
  | .null, _ | .bool _, _ | .number _, _ | .text _, _ | .list _, _ => by
      obtain ⟨path', v'⟩ := placed
      simp [Value.entries, Value.node?]

/-- **The list of entries** holds what stands somewhere. -/
theorem mem_entriesIn_iff {placed : PlacedValue} :
    ∀ {members : List (String × Value)} {path : EntryPath},
      placed ∈ entriesIn path members ↔
        ∃ rest, placed.path = path ++ rest ∧ EntryAt Value.node? members rest placed.value
  | [], _ => by simp [entriesIn, EntryAt.not_nil]
  | (name, v) :: members, path => by
      rw [entriesIn, List.mem_append, Value.mem_entries_iff, mem_entriesIn_iff,
        EntryAt.exists_cons_iff]

end

/-! ### Bad entries -/

/-- `args` is absent, or `null`, or a list of texts. -/
def ArgsInOrder (members : Entries Value) : Prop :=
  members.get? argsField = none ∨ members.get? argsField = some .null ∨
    ∃ texts : List String, members.get? argsField = some (.list (texts.map .text))

/-- What cannot be an entry: a scalar that is no text, a list, or what is shaped like a template but
has other `args`. -/
def Value.IsBad (v : Value) : Prop :=
  v.kind ∈ [Kind.number, .boolean, .null, .list] ∨
    ∃ members, v = .object members ∧ IsTemplateShaped members ∧ ¬ ArgsInOrder members

/-- Which fault a bad entry is.  Of `args` that are a list, the first item that is no text
counts. -/
inductive PlacedValue.Offends (e : PlacedValue) : PayloadFault → Prop where
  | unsupported (h : e.value.kind ∈ [Kind.number, .boolean, .null, .list]) :
      Offends e (.unsupportedValue e.path e.value.kind)
  | itemNotText {members : Entries Value} {before after : List Value} {item : Value}
      (hvalue : e.value = .object members) (hshape : IsTemplateShaped members)
      (hargs : members.get? argsField = some (.list (before ++ item :: after)))
      (hbefore : ∀ b ∈ before, b.kind = .text) (hitem : item.kind ≠ .text) :
      Offends e (.invalidArgs e.path (.itemNotText item.kind))
  | notList {members : Entries Value} {args : Value} (hvalue : e.value = .object members)
      (hshape : IsTemplateShaped members) (hargs : members.get? argsField = some args)
      (hkind : args.kind ≠ .null ∧ args.kind ≠ .list) :
      Offends e (.invalidArgs e.path (.notList args.kind))

end Json

/-! ### The parameters of a template -/

/-- What is wrong with an item of `args`. -/
def itemFault? (path : EntryPath) (item : Json.Value) : Option PayloadFault :=
  if item.kind = .text then none else some (.invalidArgs path (.itemNotText item.kind))

/-- The first item that is no text is reported. -/
theorem reports_argTexts (path : EntryPath) :
    ∀ items, Reports (items.filterMap (itemFault? path)) (argTexts path items)
  | [] => rfl
  | .text _ :: rest => (reports_argTexts path rest).map
  | .null :: _ | .bool _ :: _ | .number _ :: _ | .list _ :: _ | .object _ :: _ => rfl

/-- Texts are read as they are. -/
theorem argTexts_map_text (path : EntryPath) (texts : List String) :
    argTexts path (texts.map .text) = .ok texts := by
  induction texts with
  | nil => rfl
  | cons t texts ih =>
      rw [List.map_cons, argTexts, ih]
      rfl

/-- What has been read as texts is texts. -/
theorem eq_map_text_of_argTexts {path : EntryPath} :
    ∀ {items : List Json.Value} {texts : List String}, argTexts path items = .ok texts →
      items = texts.map .text
  | [], _, h => by
      cases h
      rfl
  | .text t :: rest, texts, h => by
      rw [argTexts] at h
      obtain ⟨found, hrest, rfl⟩ := map_eq_ok_iff.mp h
      rw [eq_map_text_of_argTexts hrest, List.map_cons]
  | .null :: _, _, h | .bool _ :: _, _, h | .number _ :: _, _, h | .list _ :: _, _, h
  | .object _ :: _, _, h => by cases h

theorem argTexts_eq_error_iff {path : EntryPath} {items : List Json.Value}
    {fault : PayloadFault} :
    argTexts path items = .error fault ↔ ∃ before item after, items = before ++ item :: after ∧
      (∀ b ∈ before, b.kind = .text) ∧ item.kind ≠ .text ∧
        fault = .invalidArgs path (.itemNotText item.kind) := by
  rw [(reports_argTexts path items).eq_error_iff_first]
  simp [itemFault?, eq_comm]

/-- The parameters are read if `args` is in order. -/
theorem exists_templateParams_iff {path : EntryPath} {members : Entries Json.Value} :
    (∃ params, templateParams path members = .ok params) ↔ Json.ArgsInOrder members := by
  unfold templateParams Json.ArgsInOrder
  split
  next hargs => simp [hargs]
  next hargs => simp [hargs]
  next items hargs =>
    simp only [hargs, reduceCtorEq, Option.some.injEq, Json.Value.list.injEq, false_or]
    constructor
    · rintro ⟨texts, h⟩
      exact ⟨texts, eq_map_text_of_argTexts h⟩
    · rintro ⟨texts, rfl⟩
      exact ⟨texts, argTexts_map_text path texts⟩
  next args hnull hlist hargs =>
    simp only [hargs, reduceCtorEq, Option.some.injEq, false_or, exists_false, false_iff, not_or,
      not_exists]
    exact ⟨hnull, fun texts => hlist _⟩

/-- What is wrong with `args` is reported: its first item that is no text, or its kind. -/
theorem templateParams_eq_error_iff {path : EntryPath} {members : Entries Json.Value}
    {fault : PayloadFault} :
    templateParams path members = .error fault ↔
      (∃ before item after, members.get? argsField = some (.list (before ++ item :: after)) ∧
        (∀ b ∈ before, b.kind = .text) ∧ item.kind ≠ .text ∧
          fault = .invalidArgs path (.itemNotText item.kind)) ∨
      ∃ args, members.get? argsField = some args ∧ (args.kind ≠ .null ∧ args.kind ≠ .list) ∧
        fault = .invalidArgs path (.notList args.kind) := by
  unfold templateParams
  split
  next hargs => simp [hargs]
  next hargs => simp [hargs, Json.Value.kind]
  next items hargs =>
    rw [argTexts_eq_error_iff]
    simp [hargs, Json.Value.kind]
  next args hnull hlist hargs =>
    have hkind : args.kind ≠ .null ∧ args.kind ≠ .list := by
      cases args with
      | null => exact absurd rfl hnull
      | list items => exact absurd rfl (hlist items)
      | _ => exact ⟨nofun, nofun⟩
    simp only [Except.error.injEq, hargs, Option.some.injEq, exists_eq_left', hkind, ne_eq,
      not_false_eq_true, and_self, true_and]
    constructor
    · rintro rfl
      exact .inr rfl
    · rintro (⟨before, item, after, rfl, -⟩ | rfl)
      · exact absurd rfl hkind.2
      · rfl

/-! ### The first bad entry -/

namespace Json.PlacedValue

/-- The fault of an entry, whatever is inside of it. -/
def fault? (e : PlacedValue) : Option PayloadFault :=
  match e.value with
  | .text _ => none
  | .object members =>
      if IsTemplateShaped members then
        match templateParams e.path members with
        | .error fault => some fault
        | .ok _ => none
      else none
  | other => some (.unsupportedValue e.path other.kind)

/-- An entry that is shaped like a template has the fault of its `args`. -/
theorem fault?_eq_some_of_isTemplateShaped {path : EntryPath} {members : Entries Value}
    (h : IsTemplateShaped members) {fault : PayloadFault} :
    fault? ⟨path, .object members⟩ = some fault ↔ templateParams path members = .error fault := by
  simp only [fault?, h, if_true]
  cases templateParams path members <;> simp

/-- An entry is bad if it has a fault. -/
theorem fault?_eq_none_iff {e : PlacedValue} : e.fault? = none ↔ ¬ e.value.IsBad := by
  obtain ⟨path, v⟩ := e
  cases v with
  | text t => simp [fault?, Value.IsBad, Value.kind]
  | object members =>
      by_cases hshape : IsTemplateShaped members
      · simp only [Value.IsBad, Value.kind, Value.object.injEq, exists_eq_left', hshape, true_and,
          ← @exists_templateParams_iff path, Option.eq_none_iff_forall_ne_some, ne_eq,
          fault?_eq_some_of_isTemplateShaped hshape]
        cases templateParams path members <;> simp
      · simp [fault?, Value.IsBad, Value.kind, hshape]
  | _ => simp [fault?, Value.IsBad, Value.kind]

/-- **The fault of an entry** says what is bad about it. -/
theorem fault?_eq_some_iff {e : PlacedValue} {fault : PayloadFault} :
    e.fault? = some fault ↔ e.Offends fault := by
  constructor
  · intro h
    obtain ⟨path, v⟩ := e
    cases v with
    | text t => cases h
    | object members =>
        by_cases hshape : IsTemplateShaped members
        · rw [fault?_eq_some_of_isTemplateShaped hshape, templateParams_eq_error_iff] at h
          rcases h with
            ⟨before, item, after, hargs, hbefore, hitem, rfl⟩ | ⟨args, hargs, hkind, rfl⟩
          · exact .itemNotText rfl hshape hargs hbefore hitem
          · exact .notList rfl hshape hargs hkind
        · simp [fault?, hshape] at h
    | _ =>
        cases h
        exact .unsupported (by simp [Value.kind])
  · intro h
    cases h with
    | unsupported h =>
        obtain ⟨path, v⟩ := e
        cases v <;> simp [fault?, Value.kind] at h ⊢
    | itemNotText hvalue hshape hargs hbefore hitem =>
        obtain ⟨path, v⟩ := e
        obtain rfl := hvalue
        exact (fault?_eq_some_of_isTemplateShaped hshape).mpr
          (templateParams_eq_error_iff.mpr (.inl ⟨_, _, _, hargs, hbefore, hitem, rfl⟩))
    | notList hvalue hshape hargs hkind =>
        obtain ⟨path, v⟩ := e
        obtain rfl := hvalue
        exact (fault?_eq_some_of_isTemplateShaped hshape).mpr
          (templateParams_eq_error_iff.mpr (.inr ⟨_, hargs, hkind, rfl⟩))

end Json.PlacedValue

mutual

/-- A value is read as a translation, unless an entry in it is bad. -/
theorem reports_ofJson? (path : EntryPath) :
    ∀ v : Json.Value, Reports ((v.entries path).filterMap Json.PlacedValue.fault?)
      (Translation.ofJson? path v)
  | .text _ | .null | .bool _ | .number _ | .list _ => rfl
  | .object members => by
      rw [Translation.ofJson?, Json.Value.entries]
      by_cases hshape : Json.IsTemplateShaped members
      · obtain ⟨t, htext⟩ := hshape.text
        rw [Json.templateText?_eq_some_iff.mpr ⟨htext, hshape⟩, if_pos hshape]
        simp only [List.filterMap_cons, List.filterMap_nil, Json.PlacedValue.fault?, hshape,
          if_true]
        cases templateParams path members <;> rfl
      · have hnone : Json.PlacedValue.fault? ⟨path, .object members⟩ = none := by
          simp [Json.PlacedValue.fault?, hshape]
        rw [Json.templateText?_eq_none_iff.mpr hshape, if_neg hshape,
          List.filterMap_cons_none hnone]
        exact (reports_entriesOfJson? path members).map

/-- Members are read as entries, unless an entry is bad. -/
theorem reports_entriesOfJson? (path : EntryPath) :
    ∀ members : List (String × Json.Value),
      Reports ((Json.entriesIn path members).filterMap Json.PlacedValue.fault?)
        (entriesOfJson? path members)
  | [] => rfl
  | (name, v) :: rest => by
      rw [Json.entriesIn, entriesOfJson?, List.filterMap_append]
      refine (reports_ofJson? (path ++ [name]) v).andThen (fun fault h => ?_) fun t h => ?_
      · rw [h]
      · rw [h]
        exact (reports_entriesOfJson? path rest).map

end

/-! ### Files -/

namespace Payload

/-- A file without an object of entries is refused, and not for the `args` of a template. -/
theorem exists_entries_or_refused (content : String) :
    (∃ members entries, Json.read content = .ok (.object members) ∧
        Entries.get? payloadField members = some (.object entries)) ∨
      ∃ fault, ofFile? content = .error fault ∧
        ∀ path problem, fault ≠ .payload (.invalidArgs path problem) := by
  cases hread : Json.read content with
  | error e => exact .inr ⟨_, by simp only [ofFile?, hread]; rfl, by simp⟩
  | ok document =>
      have hfile : ofFile? content = (ofDocument? document).mapError .payload := by
        simp only [ofFile?, hread]
        cases ofDocument? document <;> rfl
      rw [hfile]
      cases document with
      | object members =>
          rw [ofDocument?]
          cases hget : Entries.get? payloadField members with
          | none => exact .inr ⟨_, rfl, by simp⟩
          | some v =>
              cases v with
              | object entries => exact .inl ⟨members, entries, rfl, hget⟩
              | _ => exact .inr ⟨_, rfl, by simp⟩
      | _ => exact .inr ⟨_, rfl, by simp⟩

/-- A file with an object of entries has the payload that is read from the entries. -/
theorem ofFile?_of_read {content : String} {members entries : List (String × Json.Value)}
    (hread : Json.read content = .ok (.object members))
    (hentries : Entries.get? payloadField members = some (.object entries)) :
    ofFile? content = ((entriesOfJson? [] entries).map Entries.ofList).mapError .payload := by
  simp only [ofFile?, hread, ofDocument?, hentries]
  cases entriesOfJson? [] entries <;> rfl

/-- A file with an object of entries is refused for the first entry with a fault. -/
theorem reports_ofFile? {content : String} {members entries : List (String × Json.Value)}
    (hread : Json.read content = .ok (.object members))
    (hentries : Entries.get? payloadField members = some (.object entries)) :
    Reports ((Json.entriesIn [] entries).filterMap fun e => e.fault?.map FileFault.payload)
      (ofFile? content) := by
  rw [ofFile?_of_read hread hentries, ← List.map_filterMap]
  exact (reports_entriesOfJson? [] entries).map.mapError

/-- **When a document has a payload, and what is said otherwise.**  A document with an object of
entries has a payload if none of the entries is bad, at whatever depth, though not inside of a
template.  Otherwise it is refused for the first bad entry in document order, where it is, with what
is bad about it; the entries that are listed in this order are those that stand somewhere, under the
names that lead to them. -/
theorem ofFile?_verdict {content : String} {members entries : List (String × Json.Value)}
    (hread : Json.read content = .ok (.object members))
    (hentries : Entries.get? payloadField members = some (.object entries)) :
    ((∃ payload, ofFile? content = .ok payload) ↔
        ∀ path v, EntryAt Json.Value.node? entries path v → ¬ v.IsBad) ∧
      (∀ fault, ofFile? content = .error fault ↔ ∃ before e after problem,
        Json.entriesIn [] entries = before ++ e :: after ∧ (∀ b ∈ before, ¬ b.value.IsBad) ∧
          e.Offends problem ∧ fault = .payload problem) ∧
      ∀ e, e ∈ Json.entriesIn [] entries ↔ EntryAt Json.Value.node? entries e.path e.value := by
  have hreports := reports_ofFile? hread hentries
  have hplaces : ∀ e, e ∈ Json.entriesIn [] entries ↔
      EntryAt Json.Value.node? entries e.path e.value := by
    simp [Json.mem_entriesIn_iff]
  refine ⟨?_, fun fault => ?_, hplaces⟩
  · rw [hreports.exists_ok_iff, List.filterMap_eq_nil_iff]
    simp only [Option.map_eq_none_iff, Json.PlacedValue.fault?_eq_none_iff, hplaces]
    exact ⟨fun h path v hplace => h ⟨path, v⟩ hplace, fun h e hplace => h e.path e.value hplace⟩
  · rw [hreports.eq_error_iff_first]
    simp only [Option.map_eq_none_iff, Option.map_eq_some_iff,
      Json.PlacedValue.fault?_eq_none_iff, Json.PlacedValue.fault?_eq_some_iff]
    constructor
    · rintro ⟨before, e, after, hsplit, hbefore, problem, hproblem, rfl⟩
      exact ⟨before, e, after, problem, hsplit, hbefore, hproblem, rfl⟩
    · rintro ⟨before, e, after, problem, hsplit, hbefore, hproblem, rfl⟩
      exact ⟨before, e, after, hsplit, hbefore, problem, hproblem, rfl⟩

/-- A file in which the second parameter of a nested template is no text, and further on an entry is
no entry. -/
def faultySample : String :=
  "\x7b\"translations\": \x7b\"a\": \x7b\"value\": \"x\", \"args\": null\x7d, " ++
    "\"b\": \x7b\"c\": \x7b\"value\": \"y\", \"args\": [\"p\", 1]\x7d, \"d\": true\x7d\x7d\x7d"

theorem ofFile?_faultySample : ofFile? faultySample =
    .error (.payload (.invalidArgs ["b", "c"] (.itemNotText .number))) := by
  have h : (ofFile? faultySample).map (fun _ => ()) =
      .error (.payload (.invalidArgs ["b", "c"] (.itemNotText .number))) := by decide +kernel
  cases hfile : ofFile? faultySample with
  | ok payload => rw [hfile] at h; cases h
  | error fault =>
      rw [hfile] at h
      cases h
      rfl

/-- `faultySample` is refused for the template, and not for the entry behind it. -/
theorem sample_ofFile?_verdict : ∃ members entries fault,
    (Json.read faultySample = .ok (.object members) ∧
      Entries.get? payloadField members = some (.object entries)) ∧
    ofFile? faultySample = .error fault ∧
    fault.message = "Template at 'b.c' has invalid args: expected a string, found number" ∧
    ∃ before e after problem, Json.entriesIn [] entries = before ++ e :: after ∧
      (∀ b ∈ before, ¬ b.value.IsBad) ∧ e.Offends problem ∧ fault = .payload problem := by
  have hfault := ofFile?_faultySample
  rcases exists_entries_or_refused faultySample with
    ⟨members, entries, hread, hentries⟩ | ⟨other, hother, hargs⟩
  · exact ⟨members, entries, _, ⟨hread, hentries⟩, hfault, rfl,
      ((ofFile?_verdict hread hentries).2.1 _).mp hfault⟩
  · rw [hfault] at hother
    exact absurd (Except.error.inj hother).symm (hargs _ _)

end Payload

end Phrasebook
