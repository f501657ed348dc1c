import Phrasebook.Proofs.Entries
import Phrasebook.Proofs.Syntax.Templates

/-!
# Proofs — Payload — Places

What stands at which place of a payload: its entries, and below a node the entries of the node
(`Translation.node?`).  The templates of a payload are the templates that stand somewhere in it,
each at its place (`Payload.mem_templates_iff`).  What is said of every node of a payload
(`Payload.EveryNode`) is said of its entries one by one; so it is with names that are distinct
(`Payload.IsProper`).
-/

namespace Phrasebook

/-- The entries of a node. -/
def Translation.node? : Translation → Option (List (String × Translation))
  | .node entries => some entries
  | _ => none

mutual

/-- The templates of a translation are the translation, or stand inside of it. -/
theorem Translation.mem_templates_iff {placed : PlacedTemplate} :
    ∀ {t : Translation} {path : EntryPath}, placed ∈ t.templates path ↔
      (placed.path = path ∧ .template placed.text placed.params = t) ∨
        ∃ inner rest, t.node? = some inner ∧ placed.path = path ++ rest ∧
          EntryAt Translation.node? inner rest (.template placed.text placed.params)
  | .literal _, _ => by simp [Translation.templates, Translation.node?]
  | .template text params, path => by
      obtain ⟨path', text', params'⟩ := placed
      simp [Translation.templates, Translation.node?]
  | .node entries, path => by
      rw [Translation.templates, mem_templatesOf_iff]
      simp [Translation.node?]

/-- The templates of entries stand somewhere in them. -/
theorem mem_templatesOf_iff {placed : PlacedTemplate} :
    ∀ {entries : List (String × Translation)} {path : EntryPath},
      placed ∈ templatesOf path entries ↔
        ∃ rest, placed.path = path ++ rest ∧
          EntryAt Translation.node? entries rest (.template placed.text placed.params)
  | [], _ => by simp [templatesOf, EntryAt.not_nil]
  | (name, t) :: entries, path => by
      rw [templatesOf, List.mem_append, Translation.mem_templates_iff, mem_templatesOf_iff,
        EntryAt.exists_cons_iff]

end

/-- **The templates of a payload** are those that stand somewhere in it. -/
theorem Payload.mem_templates_iff {payload : Payload} {placed : PlacedTemplate} :
    placed ∈ payload.templates ↔
      EntryAt Translation.node? payload placed.path (.template placed.text placed.params) := by
  rw [Payload.templates, mem_templatesOf_iff]
  simp

/-! ### Every node -/

variable {P : List (String × Translation) → Prop} {entries : List (String × Translation)}

/-- Every node that stands somewhere in entries is such a node. -/
def Payload.EveryNode (P : List (String × Translation) → Prop)
    (entries : List (String × Translation)) : Prop :=
  ∀ path node, EntryAt Translation.node? entries path (.node node) → P node

/-- So is the translation, if it is a node, and every node in it. -/
def Translation.EveryNode (P : List (String × Translation) → Prop) (t : Translation) : Prop :=
  ∀ node, t = .node node → P node ∧ Payload.EveryNode P node

theorem Translation.node?_eq_some_iff {t : Translation} :
    t.node? = some entries ↔ t = .node entries := by
  cases t <;> simp [Translation.node?]

/-- What holds of every node is said entry by entry. -/
theorem Payload.everyNode_iff : EveryNode P entries ↔ ∀ e ∈ entries, e.2.EveryNode P := by
  constructor
  · intro h e he node heq
    have hmem : (e.1, .node node) ∈ entries := heq ▸ he
    exact ⟨h _ node (.here hmem), fun path node' hat => h _ node' (.inside hmem rfl hat)⟩
  · intro h path node hat
    cases hat with
    | here hmem => exact (h _ hmem node rfl).1
    | inside hmem hinner hat =>
        exact (h _ hmem _ (Translation.node?_eq_some_iff.mp hinner)).2 _ node hat

@[simp] theorem Payload.everyNode_nil : EveryNode P [] := by
  simp [everyNode_iff]

@[simp] theorem Payload.everyNode_cons {name : String} {t : Translation} :
    EveryNode P ((name, t) :: entries) ↔ t.EveryNode P ∧ EveryNode P entries := by
  simp [everyNode_iff]

@[simp] theorem Translation.everyNode_literal {text : String} :
    (Translation.literal text).EveryNode P := nofun

@[simp] theorem Translation.everyNode_template {text : String} {params : List String} :
    (Translation.template text params).EveryNode P := nofun

@[simp] theorem Translation.everyNode_node :
    (Translation.node entries).EveryNode P ↔ P entries ∧ Payload.EveryNode P entries := by
  simp [Translation.EveryNode]

/-- Every name stands once among the entries, and among those of each node, as it is if they have
been inserted one by one. -/
structure Payload.IsProper (payload : Payload) : Prop where
  names : (Entries.names payload).Nodup
  nodes : EveryNode (fun node => (Entries.names node).Nodup) payload

end Phrasebook
