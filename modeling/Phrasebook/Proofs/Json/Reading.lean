import Phrasebook.Json.Document
import Phrasebook.Proofs.Json.Spelling

/-!
# Proofs — Json — Reading

What the readers make of texts, lists and objects, part by part: an object is read if its members
are, and the members are read one after the other.  Each statement is about the value that is read
and what is left of the text (`Text.outcome`), so that they go together whatever comes behind.
Members and items are read however they are spelled; of a text without blanks nothing but its
members and items needs to be known.  The reader takes lists and objects that are nested up to some
depth (`Value.depth`).
-/

namespace Phrasebook.Json

open Text (outcome)

variable {α σ : Type} {s behind : List Char}

/-! ### Depth -/

mutual

/-- How deep lists and objects are nested in a value. -/
def Value.depth : Value → Nat
  | .list items => 1 + itemsDepth items
  | .object members => 1 + membersDepth members
  | _ => 0

/-- The depth of the deepest item. -/
def itemsDepth : List Value → Nat
  | [] => 0
  | v :: rest => max v.depth (itemsDepth rest)

/-- The depth of the deepest member. -/
def membersDepth : List (String × Value) → Nat
  | [] => 0
  | (_, v) :: rest => max v.depth (membersDepth rest)

end

/-! ### Texts without blanks -/

theorem quoteChars_append (cs behind : List Char) :
    Text.quoteChars cs ++ behind = '"' :: (cs.flatMap Text.escape ++ '"' :: behind) := by
  simp [Text.quoteChars]

/-- A comma before all but the first. -/
def separated (first : Bool) (cs : List Char) : List Char :=
  if first then cs else ',' :: cs

theorem spellsComma_separated (first : Bool) (cs : List Char) :
    SpellsComma first (separated first cs) cs := by
  cases first with
  | true => exact .first
  | false => exact .comma (.refl _)

/-! ### Members -/

theorem outcome_members_of_close {member : String → σ → Reader σ} {first : Bool} {state : σ}
    (h : IsBlankUpTo s ('\x7d' :: behind)) :
    outcome (members member first state s) = some (state, behind) := by
  obtain ⟨_, hclose⟩ := outcome_eq_some_iff.mp (outcome_closeObject h)
  rw [members, nextKey_close h, hclose]
  rfl

/-- **One member**, and then the others. -/
theorem outcome_members_of_cons {member : String → σ → Reader σ} {first : Bool} {state next : σ}
    {key t u after : List Char} (h : SpellsComma first s t) (hquote : IsBlankUpTo t ('"' :: u))
    (hkey : Text.SpellsChars key u after)
    (hmember : outcome (member (String.ofList key) state after) = some (next, behind)) :
    outcome (members member first state s) = outcome (members member false next behind) := by
  obtain ⟨_, hnext⟩ := nextKey_quote h hquote
  obtain ⟨_, hread⟩ := outcome_eq_some_iff.mp hkey.outcome_text
  obtain ⟨_, hmember⟩ := outcome_eq_some_iff.mp hmember
  rw [members, hnext]
  simp only [hread, hmember]
  cases members member false next behind <;> rfl

theorem outcome_members_close {member : String → σ → Reader σ} {first : Bool} {state : σ} :
    outcome (members member first state ('\x7d' :: behind)) = some (state, behind) :=
  outcome_members_of_close (.refl _)

theorem outcome_members_cons {member : String → σ → Reader σ} {first : Bool} {state next : σ}
    {key : String} (hmember : outcome (member key state s) = some (next, behind)) :
    outcome (members member first state (separated first (Text.quoteChars key.toList ++ s))) =
      outcome (members member false next behind) := by
  rw [← String.ofList_toList (s := key)] at hmember
  rw [quoteChars_append]
  exact outcome_members_of_cons (spellsComma_separated first _) (.refl _)
    (Text.spellsChars_flatMap_escape s key.toList) hmember

theorem outcome_memberOf {value : Reader Value} {key : String} {found : Entries Value} {v : Value}
    (hvalue : outcome (value s) = some (v, behind)) :
    outcome (memberOf value key found (':' :: s)) = some (found.insert key v, behind) := by
  obtain ⟨_, hvalue⟩ := outcome_eq_some_iff.mp hvalue
  obtain ⟨_, hcolon⟩ := colon_eq (.refl (':' :: s))
  rw [memberOf, hcolon]
  simp only [hvalue]
  rfl

/-! ### Items -/

theorem outcome_items_of_close {item : Reader α} {first : Bool}
    (h : IsBlankUpTo s (']' :: behind)) : outcome (items item first s) = some ([], behind) := by
  obtain ⟨_, hclose⟩ := outcome_eq_some_iff.mp (outcome_closeList h)
  rw [items, nextItem_close h, hclose]
  rfl

/-- **One item**, from its first character on, and then the others. -/
theorem outcome_items_of_cons {item : Reader α} {first : Bool} {t u : List Char} {c : Char} {a : α}
    (h : SpellsComma first s t) (ht : skipBlank t = c :: u) (hc : c ≠ ']')
    (hitem : outcome (item (c :: u)) = some (a, behind)) :
    outcome (items item first s) =
      (outcome (items item false behind)).map fun x => (a :: x.1, x.2) := by
  obtain ⟨_, hnext⟩ := nextItem_value h ht hc
  obtain ⟨_, hitem⟩ := outcome_eq_some_iff.mp hitem
  rw [items, hnext]
  simp only [hitem]
  cases items item false behind <;> rfl

theorem outcome_items_close {item : Reader α} {first : Bool} :
    outcome (items item first (']' :: behind)) = some ([], behind) :=
  outcome_items_of_close (.refl _)

/-- An item that starts with a text. -/
theorem outcome_items_cons {item : Reader α} {first : Bool} {cs : List Char} {a : α}
    (hitem : outcome (item (Text.quoteChars cs ++ s)) = some (a, behind)) :
    outcome (items item first (separated first (Text.quoteChars cs ++ s))) =
      (outcome (items item false behind)).map fun x => (a :: x.1, x.2) := by
  rw [quoteChars_append] at hitem ⊢
  exact outcome_items_of_cons (spellsComma_separated first _)
    ((IsBlankUpTo.refl _).skipBlank_eq rfl) (by decide) hitem

/-! ### Values -/

theorem value_text (depth : Nat) (s : List Char) :
    value depth ('"' :: s) =
      (text s).map fun x =>
        (x.map fun v => .text (String.ofList v)).widen (length_le_cons '"' s) := by
  rw [value]
  rfl

theorem value_list (depth : Nat) (s : List Char) :
    value (depth + 1) ('[' :: s) =
      (items (value depth) true s).map fun x => (x.map .list).widen (length_le_cons '[' s) := by
  rw [value]
  rfl

theorem value_object (depth : Nat) (s : List Char) :
    value (depth + 1) ('\x7b' :: s) =
      (members (memberOf (value depth)) true [] s).map fun x =>
        (x.map .object).widen (length_le_cons '\x7b' s) := by
  rw [value]
  rfl

theorem outcome_value_text (depth : Nat) (t : String) (behind : List Char) :
    outcome (value depth (Text.quoteChars t.toList ++ behind)) = some (.text t, behind) := by
  obtain ⟨_, hread⟩ := outcome_eq_some_iff.mp (Text.text_quoted t.toList behind)
  rw [quoteChars_append, value_text, hread]
  exact congrArg (fun u => some (Value.text u, behind)) String.ofList_toList

theorem outcome_value_list {depth : Nat} {found : List Value}
    (h : outcome (items (value depth) true s) = some (found, behind)) :
    outcome (value (depth + 1) ('[' :: s)) = some (.list found, behind) := by
  obtain ⟨hshorter, h⟩ := outcome_eq_some_iff.mp h
  rw [value_list, h]
  rfl

theorem outcome_value_object {depth : Nat} {found : Entries Value}
    (h : outcome (members (memberOf (value depth)) true [] s) = some (found, behind)) :
    outcome (value (depth + 1) ('\x7b' :: s)) = some (.object found, behind) := by
  obtain ⟨hshorter, h⟩ := outcome_eq_some_iff.mp h
  rw [value_object, h]
  rfl

/-- A text that is read to its end is a document. -/
theorem read_of_outcome {content : String} {v : Value}
    (h : outcome (value depthLimit content.toList) = some (v, [])) : read content = .ok v := by
  obtain ⟨hshorter, h⟩ := outcome_eq_some_iff.mp h
  rw [read, readWith, h]
  rfl

end Phrasebook.Json
