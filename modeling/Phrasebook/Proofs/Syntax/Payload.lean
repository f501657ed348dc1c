import Phrasebook.Proofs.Syntax.Rows
import Phrasebook.Proofs.Syntax.Templates

/-!
# Proofs — Syntax — Payload

The payload that a tree was built from.  An entry keeps the name, the texts and the parameters of
its translation, so that the payload can be read off the tree (`Tree.payload_of_ofPayload?`); and no
template with a problem gets into a tree (`Tree.isSound_of_ofPayload?`).
-/

namespace Phrasebook.Syntax

mutual

/-- The translation that an entry was built from. -/
def Entry.translation : Entry → Translation
  | .literal _ text => .literal text
  | .callable _ text params => .template text params
  | .block _ entries => .node (payloadOf entries)

/-- The named translations that entries were built from. -/
def payloadOf : List Entry → List (String × Translation)
  | [] => []
  | e :: es => (e.name, e.translation) :: payloadOf es

end

/-- A callable has a template without a problem. -/
def Row.IsSound : Row → Prop
  | .callable _ text params => templateProblem? text params = none
  | _ => True

mutual

/-- An entry keeps its translation, which has no unsound template. -/
theorem translation_of_ofTranslation? {path : EntryPath} {name : String} :
    ∀ {t : Translation} {e : Entry}, Entry.ofTranslation? path name t = .ok e →
      (e.name = name ∧ e.translation = t) ∧ ∀ depth, ∀ row ∈ e.rows depth, row.2.IsSound
  | .literal text, e, h => by
      cases h
      exact ⟨⟨rfl, rfl⟩, fun depth row hrow => by cases List.mem_singleton.mp hrow; trivial⟩
  | .template text params, e, h => by
      rw [Entry.ofTranslation?] at h
      split at h
      · cases h
      · next hproblem =>
          cases h
          refine ⟨⟨rfl, rfl⟩, fun depth row hrow => ?_⟩
          cases List.mem_singleton.mp hrow
          exact hproblem
  | .node entries, e, h => by
      rw [Entry.ofTranslation?] at h
      cases hentries : treeOf? path entries with
      | error fault => rw [hentries] at h; cases h
      | ok es =>
          rw [hentries] at h
          cases h
          obtain ⟨hpayload, hsound⟩ := payloadOf_of_treeOf? hentries
          refine ⟨⟨rfl, by rw [Entry.translation, hpayload]⟩, fun depth row hrow => ?_⟩
          -- the rows of the entries, between two that are no callables
          simp only [Entry.rows, List.mem_cons, List.mem_append, List.not_mem_nil, or_false] at hrow
          rcases hrow with rfl | hrow | rfl
          · trivial
          · exact hsound _ row hrow
          · trivial

/-- Entries keep their translations, which have no unsound template. -/
theorem payloadOf_of_treeOf? {path : EntryPath} :
    ∀ {entries : List (String × Translation)} {es : List Entry}, treeOf? path entries = .ok es →
      payloadOf es = entries ∧ ∀ depth, ∀ row ∈ rowsOf depth es, row.2.IsSound
  | [], es, h => by
      cases h
      exact ⟨rfl, fun depth row hrow => by cases hrow⟩
  | (name, t) :: rest, es, h => by
      rw [treeOf?] at h
      cases hentry : Entry.ofTranslation? (path ++ [name]) name t with
      | error fault => rw [hentry] at h; cases h
      | ok e =>
          rw [hentry] at h
          cases hrest : treeOf? path rest with
          | error fault => simp only [hrest] at h; cases h
          | ok es' =>
              simp only [hrest] at h
              cases h
              obtain ⟨⟨rfl, rfl⟩, hsound⟩ := translation_of_ofTranslation? hentry
              obtain ⟨rfl, hsounds⟩ := payloadOf_of_treeOf? hrest
              refine ⟨rfl, fun depth row hrow => ?_⟩
              rcases List.mem_append.mp hrow with hrow | hrow
              · exact hsound depth row hrow
              · exact hsounds depth row hrow

end

namespace Tree

variable {payload : Payload} {tree : Tree}

/-- **A payload can be read off its tree.** -/
theorem payload_of_ofPayload? (h : ofPayload? payload = .ok tree) : payloadOf tree = payload :=
  (payloadOf_of_treeOf? h).1

/-- **No template of a tree has a problem.** -/
theorem isSound_of_ofPayload? (h : ofPayload? payload = .ok tree) :
    ∀ row ∈ tree.rows, row.2.IsSound :=
  (payloadOf_of_treeOf? h).2 1

end Tree

end Phrasebook.Syntax
