import Phrasebook.Payload.File
import Phrasebook.Proofs.Json.Reading
import Phrasebook.Proofs.Payload.Places

/-!
# Proofs — Payload — Writing

A text for the document of a payload, without blanks, and that the document is read from it
(`Payload.read_written`), if it is not nested too deep.  The reader inserts the members of an object
one by one; they come out as they stand in the text since their names are distinct.
-/

namespace Phrasebook

/-! ### Members of an object -/

theorem entriesToJson_eq_map (entries : List (String × Translation)) :
    entriesToJson entries = entries.map fun e => (e.1, e.2.toJson) := by
  induction entries with
  | nil => rfl
  | cons e rest ih => rw [entriesToJson, ih, List.map_cons]

theorem names_entriesToJson (entries : List (String × Translation)) :
    Entries.names (entriesToJson entries) = Entries.names entries := by
  simp [Entries.names, entriesToJson_eq_map]

/-! ### The text of a translation -/

open Json (separated)
open Text (quoteChars outcome)

/-- The items of a list of texts and its bracket, before other characters. -/
def textsThen (first : Bool) (behind : List Char) : List String → List Char
  | [] => ']' :: behind
  | t :: rest => separated first (quoteChars t.toList ++ textsThen false behind rest)

mutual

/-- A translation, before other characters. -/
def Translation.charsThen (behind : List Char) : Translation → List Char
  | .literal t => quoteChars t.toList ++ behind
  | .template t params =>
      '\x7b' :: separated true (quoteChars textField.toList ++ ':' :: (quoteChars t.toList ++
        separated false (quoteChars argsField.toList ++ ':' :: '[' ::
          textsThen true ('\x7d' :: behind) params)))
  | .node entries => '\x7b' :: entriesThen true behind entries

/-- The members of an object of translations and its brace, before other characters. -/
def entriesThen (first : Bool) (behind : List Char) : List (String × Translation) → List Char
  | [] => '\x7d' :: behind
  | (name, t) :: rest =>
      separated first (quoteChars name.toList ++ ':' :: t.charsThen (entriesThen false behind rest))

end

/-! ### Reading it -/

theorem outcome_items_textsThen (depth : Nat) (behind : List Char) :
    ∀ (params : List String) (first : Bool),
      outcome (Json.items (Json.value depth) first (textsThen first behind params)) =
        some (params.map .text, behind)
  | [], _ => Json.outcome_items_close
  | t :: rest, first => by
      rw [textsThen, Json.outcome_items_cons (Json.outcome_value_text depth t _),
        outcome_items_textsThen depth behind rest false]
      rfl

mutual

/-- **A translation is read back** before whatever follows it. -/
theorem outcome_value_charsThen :
    ∀ {t : Translation} {depth : Nat} (behind : List Char),
      t.EveryNode (fun node => (Entries.names node).Nodup) → t.toJson.depth ≤ depth →
      outcome (Json.value depth (t.charsThen behind)) = some (t.toJson, behind)
  | .literal t, depth, behind, _, _ => Json.outcome_value_text depth t behind
  | .template t params, depth, behind, _, hdepth => by
      rw [Translation.toJson] at hdepth ⊢
      obtain ⟨depth, rfl⟩ : ∃ d, depth = d + 2 := ⟨depth - 2, by
        simp only [Json.Value.depth, Json.membersDepth] at hdepth
        omega⟩
      have hargs := Json.outcome_value_list
        (outcome_items_textsThen depth ('\x7d' :: behind) params true)
      have htext := Json.outcome_value_text (depth + 1) t (separated false (quoteChars
        argsField.toList ++ ':' :: '[' :: textsThen true ('\x7d' :: behind) params))
      refine Json.outcome_value_object ?_
      rw [Json.outcome_members_cons (Json.outcome_memberOf htext),
        Json.outcome_members_cons (Json.outcome_memberOf hargs), Json.outcome_members_close]
      rfl
  | .node entries, depth, behind, hproper, hdepth => by
      obtain ⟨hnames, hnodes⟩ := Translation.everyNode_node.mp hproper
      rw [Translation.toJson, Json.Value.depth] at hdepth
      obtain ⟨depth, rfl⟩ : ∃ d, depth = d + 1 := ⟨depth - 1, by omega⟩
      have hread := outcome_members_entriesThen true [] behind hnodes
        (show Json.membersDepth (entriesToJson entries) ≤ depth by omega)
      rw [← Entries.ofList, Entries.ofList_of_nodup (names_entriesToJson entries ▸ hnames)] at hread
      exact Json.outcome_value_object hread

/-- **Entries are read back**, and put to those that have been found before. -/
theorem outcome_members_entriesThen :
    ∀ {entries : List (String × Translation)} {depth : Nat} (first : Bool)
      (found : Entries Json.Value) (behind : List Char),
      Payload.EveryNode (fun node => (Entries.names node).Nodup) entries →
      Json.membersDepth (entriesToJson entries) ≤ depth →
      outcome (Json.members (Json.memberOf (Json.value depth)) first found
        (entriesThen first behind entries)) =
          some (found.insertAll (entriesToJson entries), behind)
  | [], _, _, _, _, _, _ => Json.outcome_members_close
  | (name, t) :: rest, depth, first, found, behind, hproper, hdepth => by
      obtain ⟨ht, hrest⟩ := Payload.everyNode_cons.mp hproper
      rw [entriesToJson, Json.membersDepth] at hdepth
      have hvalue := outcome_value_charsThen (entriesThen false behind rest) ht
        (show t.toJson.depth ≤ depth by omega)
      have hothers := outcome_members_entriesThen false (found.insert name t.toJson) behind hrest
        (show Json.membersDepth (entriesToJson rest) ≤ depth by omega)
      rw [entriesThen, Json.outcome_members_cons (Json.outcome_memberOf hvalue)]
      exact hothers

end

namespace Payload

/-- The text of the document of a payload. -/
def written (payload : Payload) : String :=
  String.ofList ((Translation.node [(payloadField, .node payload)]).charsThen [])

/-- **The document of a payload is read from its text**, unless it is nested too deep. -/
theorem read_written {payload : Payload} (hproper : payload.IsProper)
    (hdepth : payload.toDocument.depth ≤ Json.depthLimit) :
    Json.read payload.written = .ok payload.toDocument := by
  have hnodes : (Translation.node [(payloadField, .node payload)]).EveryNode
      fun node => (Entries.names node).Nodup := by
    simp only [Translation.everyNode_node, everyNode_cons]
    exact ⟨List.nodup_singleton _, ⟨hproper.names, hproper.nodes⟩, everyNode_nil⟩
  refine Json.read_of_outcome ?_
  rw [written, String.toList_ofList]
  exact outcome_value_charsThen [] hnodes hdepth

end Payload

end Phrasebook
