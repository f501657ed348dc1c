import Phrasebook.Proofs.Json.Reading
import Phrasebook.Proofs.Text.Parts

/-!
# Proofs — Text — Literal

String literals as they stand in source, whatever text they denote.  A backslash escapes the
character behind it unless it is escaped itself (`escapesNext`); in a literal every quote between
the two ends is escaped, and the quote at the end is not (`isLiteral_quote`).  So a literal can be
told apart from what follows, and as documents it is read back as the text that it was written for.
Quoting hence loses nothing, and no literal is the start of another; nor do two names have one name
of a property (`quote_denotes`).
-/

namespace Phrasebook.Text

/-- Whether a character behind these is escaped: the last of them is a backslash, and not escaped
itself. -/
def escapesNext (cs : List Char) : Bool :=
  cs.foldl (fun escaped c => c == '\\' && !escaped) false

/-- Every quote is escaped, and nothing that follows is. -/
structure IsEscaped (cs : List Char) : Prop where
  quotes : ∀ before behind, cs = before ++ '"' :: behind → escapesNext before = true
  ends : escapesNext cs = false

/-- Starts with a quote and ends with the next one that is not escaped, and holds no control
character. -/
structure IsLiteral (literal : String) : Prop where
  delimited : ∃ inside, literal.toList = '"' :: (inside ++ ['"']) ∧ IsEscaped inside
  le_toNat : ∀ c ∈ literal.toList, 0x20 ≤ c.toNat

/-! ### Escaped quotes -/

theorem escapesNext_append {as : List Char} (h : escapesNext as = false) (bs : List Char) :
    escapesNext (as ++ bs) = escapesNext bs := by
  rw [escapesNext, List.foldl_append, show as.foldl _ false = false from h]
  rfl

theorem IsEscaped.nil : IsEscaped [] where
  quotes := by simp
  ends := rfl

theorem IsEscaped.append {as bs : List Char} (ha : IsEscaped as) (hb : IsEscaped bs) :
    IsEscaped (as ++ bs) where
  quotes := by
    intro before behind heq
    rcases List.append_eq_append_iff.mp heq with ⟨rest, rfl, hrest⟩ | ⟨rest, hrest, hbehind⟩
    · rw [escapesNext_append ha.ends]
      exact hb.quotes rest behind hrest
    · cases rest with
      | nil => exact absurd (hb.quotes [] behind hbehind.symm) (by decide)
      | cons c cs =>
          obtain ⟨rfl, -⟩ := List.cons.inj hbehind
          exact ha.quotes before cs hrest
  ends := by rw [escapesNext_append ha.ends, hb.ends]

/-- Characters that stand for themselves escape nothing, and no quote is among them. -/
theorem isEscaped_of_unescaped {cs : List Char} (h : ∀ c ∈ cs, IsUnescaped c) : IsEscaped cs := by
  induction cs with
  | nil => exact .nil
  | cons c cs ih =>
      obtain ⟨hc, hcs⟩ := List.forall_mem_cons.mp h
      have hfirst : IsEscaped [c] :=
        { quotes := fun before behind heq => by
            have hmem : '"' ∈ [c] := by simp [heq]
            exact absurd (List.mem_singleton.mp hmem).symm hc.ne_quote
          ends := by simp [escapesNext, hc.ne_slash] }
      exact hfirst.append (ih hcs)

/-- A backslash escapes what follows it, be it a quote or a backslash. -/
theorem isEscaped_slash_cons (d : Char) : IsEscaped ['\\', d] where
  quotes := by
    intro before behind heq
    match before with
    | [] => exact absurd (List.cons.inj heq).1 (by decide)
    | [c] =>
        obtain ⟨rfl, -⟩ := List.cons.inj heq
        rfl
    | _ :: _ :: _ => simp at heq
  ends := by simp [escapesNext]

theorem isEscaped_escape (c : Char) : IsEscaped (escape c) := by
  obtain ⟨hescape, hc⟩ | ⟨d, ds, hescape, -, hds⟩ := escape_cases c
  · rw [hescape]
    exact isEscaped_of_unescaped (by simpa using hc)
  · rw [hescape]
    exact (isEscaped_slash_cons d).append (isEscaped_of_unescaped hds)

theorem isEscaped_flatMap_escape (cs : List Char) : IsEscaped (cs.flatMap escape) := by
  induction cs with
  | nil => exact .nil
  | cons c cs ih => exact (isEscaped_escape c).append ih

/-! ### Quoted texts -/

theorem isLiteral_quote (text : String) : IsLiteral (quote text) where
  delimited := ⟨text.toList.flatMap escape, toList_quote text, isEscaped_flatMap_escape _⟩
  le_toNat _ := le_toNat_of_mem_quote

theorem read_quote (text : String) : Json.read (quote text) = .ok (.text text) := by
  refine Json.read_of_outcome ?_
  rw [toList_quote, ← List.append_nil (quoteChars _)]
  exact Json.outcome_value_text Json.depthLimit text []

theorem quote_prefix_iff {a b : String} : (quote a).toList <+: (quote b).toList ↔ a = b := by
  constructor
  · rintro ⟨rest, h⟩
    rw [toList_quote, toList_quote, ← List.append_nil (quoteChars b.toList)] at h
    exact String.toList_inj.mp (quoteChars_append_inj h).1
  · rintro rfl
    exact List.prefix_rfl

theorem property_inj {a b : String} (h : property a = property b) : a = b := by
  have hcolon : isIdentifierPart ':' = false := by decide
  exact (property_append_inj hcolon hcolon (congrArg (·.toList ++ [':']) h)).1

/-- **A quoted text is a literal that denotes the text**, and no other literal starts like it.  It is
read back as a document; so texts are known from how they are quoted, and names from how they are
printed, be it bare or quoted. -/
theorem quote_denotes (text other : String) :
    IsLiteral (quote text) ∧ Json.read (quote text) = .ok (.text text) ∧
      (quote text = quote other ↔ text = other) ∧
      ((quote text).toList <+: (quote other).toList ↔ text = other) ∧
      (property text = property other ↔ text = other) := by
  refine ⟨isLiteral_quote text, read_quote text, ⟨fun h => ?_, congrArg quote⟩, quote_prefix_iff,
    property_inj, congrArg property⟩
  exact quote_prefix_iff.mp (h ▸ List.prefix_rfl)

/-- A backslash before a quote: each has a backslash of its own, and the quote at the end has none. -/
example : quote "\\\"\\" = "\"\\\\\\\"\\\\\"" := by decide

end Phrasebook.Text
