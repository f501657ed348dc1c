import Phrasebook.Json.Skip
import Phrasebook.Proofs.Json.Spelling

/-!
# Proofs — Json — Skipping

A value that nobody asks for is skipped, whatever way it is spelled (`Spells.outcome_skip`).  The
skipping is one loop with a stack of the lists and objects around the place: over the text of one
value it goes from any stack to what comes after a value in it (`Spells.remains_skipFrom`).
-/

namespace Phrasebook.Json

open Text (outcome)

variable {first : Bool} {s t u w rest : List Char}

/-- What is left of a text. -/
def remains {s : List Char} : Except Fault (Tail s) → Option (List Char)
  | .ok t => some t.1
  | .error _ => none

/-- What is left of a text when skipping goes on as it should. -/
def skipOn : Option Skipping → List Char → Option (List Char)
  | none, s => some s
  | some state, s => remains (skipFrom state s)

/-! ### Steps -/

theorem remains_skipFrom_value {around : List Enclosing} {next : Option Skipping}
    (h : outcome (skipStart around s) = some (next, t)) :
    remains (skipFrom (.value around) s) = skipOn next t := by
  obtain ⟨_, h⟩ := outcome_eq_some_iff.mp h
  rw [skipFrom, h]
  cases next with
  | none => rfl
  | some state =>
      simp only [skipOn]
      cases skipFrom state t <;> rfl

theorem remains_skipFrom_close {innermost : Enclosing} {around : List Enclosing}
    (h : IsBlankUpTo s (innermost.closer :: rest)) :
    remains (skipFrom (.inside first innermost around) s) = skipOn (afterValue around) rest := by
  have hblank : isBlank innermost.closer = false := by cases innermost <;> rfl
  have hs := h.skipBlank_eq hblank
  have hclose : skipInside first innermost s =
      .ok (.inl ⟨(), rest, length_lt_of_skipBlank hs⟩) := by
    unfold skipInside
    split <;> grind
  rw [skipFrom, hclose]
  cases afterValue around with
  | none => rfl
  | some next =>
      simp only [skipOn]
      cases skipFrom next rest <;> rfl

theorem remains_skipFrom_inside {innermost : Enclosing} {around : List Enclosing}
    (h : ∃ ht, skipInside first innermost s = .ok (.inr ⟨t, ht⟩)) :
    remains (skipFrom (.inside first innermost around) s) =
      remains (skipFrom (.value (innermost :: around)) t) := by
  obtain ⟨_, h⟩ := h
  conv_lhs => rw [skipFrom, h]
  simp only
  cases skipFrom (.value (innermost :: around)) t <;> rfl

/-! ### Where values start -/

/-- Blanks before the start do not matter. -/
theorem outcome_skipStart_of_skipBlank (around : List Enclosing) {c : Char}
    (h : skipBlank s = c :: t) (hc : isBlank c = false) :
    outcome (skipStart around s) = outcome (skipStart around (c :: t)) := by
  have hcons : skipBlank (c :: t) = c :: t := (IsBlankUpTo.refl _).skipBlank_eq hc
  unfold skipStart
  split
  · next heq => cases h.symm.trans heq
  · next heq =>
      cases h.symm.trans heq
      symm
      split
      · next heq => cases hcons.symm.trans heq
      · next heq =>
          cases hcons.symm.trans heq
          dsimp only
          split_ifs
          · cases keyword ['u', 'l', 'l'] t <;> rfl
          · cases keyword ['r', 'u', 'e'] t <;> rfl
          · cases keyword ['a', 'l', 's', 'e'] t <;> rfl
          · cases numeral .invalidNumber (c :: t) <;> rfl
          · cases skipText t <;> rfl
          all_goals rfl

theorem outcome_skipStart_numeral (around : List Enclosing) {n : Numeral} {c : Char}
    (hc : c = '-' ∨ c.isDigit = true)
    (h : outcome (numeral .invalidNumber (c :: t)) = some (n, rest)) :
    outcome (skipStart around (c :: t)) = some (afterValue around, rest) := by
  have hn : c ≠ 'n' := by rintro rfl; exact absurd hc (by decide)
  have ht : c ≠ 't' := by rintro rfl; exact absurd hc (by decide)
  have hf : c ≠ 'f' := by rintro rfl; exact absurd hc (by decide)
  have hcons : skipBlank (c :: t) = c :: t :=
    (IsBlankUpTo.refl _).skipBlank_eq (isBlank_eq_false_of_numeral hc)
  obtain ⟨_, h⟩ := outcome_eq_some_iff.mp h
  unfold skipStart
  split
  · next heq => cases hcons.symm.trans heq
  · next heq =>
      cases hcons.symm.trans heq
      simp only [hn, ht, hf, hc, if_true, if_false, h]
      rfl

theorem outcome_skipStart_text (around : List Enclosing)
    (h : outcome (skipText t) = some ((), rest)) :
    outcome (skipStart around ('"' :: t)) = some (afterValue around, rest) := by
  obtain ⟨_, h⟩ := outcome_eq_some_iff.mp h
  rw [skipStart]
  show outcome ((skipText t).map _) = _
  rw [h]
  rfl

/-! ### Where members start -/

theorem outcome_skipKey (hquote : IsBlankUpTo s ('"' :: t))
    (hkey : outcome (skipText t) = some ((), u)) (hcolon : IsBlankUpTo u (':' :: w)) :
    outcome (skipKey s) = some ((), w) := by
  have hs := hquote.skipBlank_eq rfl
  obtain ⟨_, hkey⟩ := outcome_eq_some_iff.mp hkey
  obtain ⟨_, hcolon⟩ := colon_eq hcolon
  unfold skipKey
  split
  · next heq => cases hs.symm.trans heq
  · next heq =>
      cases hs.symm.trans heq
      simp only [hkey, hcolon]
      rfl

/-- Inside a list, skipping goes on to the next value. -/
theorem exists_skipInside_list {v : Value} (h : SpellsComma first s t) (hv : Spells v t rest) :
    ∃ u, Spells v u rest ∧ ∃ hu, skipInside first .list s = .ok (.inr ⟨u, hu⟩) := by
  cases h with
  | first =>
      obtain ⟨c, cs, hs, hc, hv⟩ := hv.exists_skipBlank
      refine ⟨c :: cs, hv, length_le_of_skipBlank hs, ?_⟩
      unfold skipInside
      split <;> grind [Enclosing.closer]
  | comma h =>
      have hs := h.skipBlank_eq rfl
      refine ⟨t, hv, length_tail_le_of_skipBlank hs, ?_⟩
      unfold skipInside
      split <;> grind [Enclosing.closer]

/-- Inside an object, skipping goes on to the value of the next member. -/
theorem exists_skipInside_object (h : SpellsComma first s t) (hquote : IsBlankUpTo t ('"' :: u))
    (hkey : outcome (skipText u) = some ((), rest)) (hcolon : IsBlankUpTo rest (':' :: w)) :
    ∃ hw, skipInside first .object s = .ok (.inr ⟨w, hw⟩) := by
  cases h with
  | first =>
      have hs := hquote.skipBlank_eq rfl
      obtain ⟨hlt, hread⟩ := outcome_eq_some_iff.mp (outcome_skipKey (.refl _) hkey hcolon)
      refine ⟨Nat.le_trans (length_le_of_lt hlt) (length_le_of_skipBlank hs), ?_⟩
      unfold skipInside
      split
      · next heq => cases hs.symm.trans heq
      · next heq =>
          cases hs.symm.trans heq
          simp [Enclosing.closer, hread, Except.map, Tail.upTo, Reply.tail]
  | comma h =>
      have hs := h.skipBlank_eq rfl
      obtain ⟨hlt, hread⟩ := outcome_eq_some_iff.mp (outcome_skipKey hquote hkey hcolon)
      refine ⟨Nat.le_trans (length_le_of_lt hlt) (length_tail_le_of_skipBlank hs), ?_⟩
      unfold skipInside
      split
      · next heq => cases hs.symm.trans heq
      · next heq =>
          cases hs.symm.trans heq
          simp [Enclosing.closer, hread, Except.map, Tail.upTo, Reply.tail]

/-! ### Whole values -/

mutual

/-- **A value is skipped**, and then whatever it stands in. -/
theorem Spells.remains_skipFrom : ∀ {v : Value} {s rest : List Char}, Spells v s rest →
    ∀ around, remains (skipFrom (.value around) s) = skipOn (afterValue around) rest
  | _, _, _, .null h, around => remains_skipFrom_value
      (outcome_skipStart_of_skipBlank around (h.skipBlank_eq rfl) rfl)
  | _, _, _, .true h, around => remains_skipFrom_value
      (outcome_skipStart_of_skipBlank around (h.skipBlank_eq rfl) rfl)
  | _, _, _, .false h, around => remains_skipFrom_value
      (outcome_skipStart_of_skipBlank around (h.skipBlank_eq rfl) rfl)
  | .number _, _, _, .number h hn _ hrest, around => by
      have hread := hn.outcome_numeral .invalidNumber hrest
      obtain ⟨c, cs, rfl, hc⟩ := hn.exists_cons
      refine remains_skipFrom_value ?_
      rw [outcome_skipStart_of_skipBlank around (h.skipBlank_eq (isBlank_eq_false_of_numeral hc))
        (isBlank_eq_false_of_numeral hc)]
      exact outcome_skipStart_numeral around hc hread
  | _, _, _, .text h hcs, around => remains_skipFrom_value
      ((outcome_skipStart_of_skipBlank around (h.skipBlank_eq rfl) rfl).trans
        (outcome_skipStart_text around (outcome_skipText hcs)))
  | .list items, _, _, .list h hitems, around => by
      rw [remains_skipFrom_value
        (outcome_skipStart_of_skipBlank around (h.skipBlank_eq rfl) rfl)]
      exact hitems.remains_skipFrom around
  | .object members, _, _, .object h hmembers, around => by
      rw [remains_skipFrom_value
        (outcome_skipStart_of_skipBlank around (h.skipBlank_eq rfl) rfl)]
      exact hmembers.remains_skipFrom around

theorem SpellsItems.remains_skipFrom : ∀ {items : List Value} {first : Bool} {s rest : List Char},
    SpellsItems first items s rest → ∀ around,
      remains (skipFrom (.inside first .list around) s) = skipOn (afterValue around) rest
  | [], _, _, _, .close h, around => remains_skipFrom_close h
  | v :: items, _, _, _, .cons h hv hitems, around => by
      -- the item is skipped inside the list, and what comes after it is inside the list again
      obtain ⟨u, hu, hinside⟩ := exists_skipInside_list h hv
      rw [remains_skipFrom_inside hinside, hu.remains_skipFrom (.list :: around)]
      exact hitems.remains_skipFrom around

theorem SpellsMembers.remains_skipFrom : ∀ {members : List (String × Value)} {first : Bool}
    {s rest : List Char}, SpellsMembers first members s rest → ∀ around,
      remains (skipFrom (.inside first .object around) s) = skipOn (afterValue around) rest
  | [], _, _, _, .close h, around => remains_skipFrom_close h
  | (_, v) :: members, _, _, _, .cons h hquote hkey hcolon hv hmembers, around => by
      rw [remains_skipFrom_inside
        (exists_skipInside_object h hquote (outcome_skipText hkey) hcolon),
        hv.remains_skipFrom (.object :: around)]
      exact hmembers.remains_skipFrom around

end

/-- **Any value can be skipped.** -/
theorem Spells.outcome_skip {v : Value} {s rest : List Char} (h : Spells v s rest) :
    outcome (skip s) = some ((), rest) := by
  have hremains := h.remains_skipFrom []
  rw [skipFrom] at hremains
  rw [skip]
  cases hstart : skipStart [] s with
  | error fault => rw [hstart] at hremains; cases hremains
  | ok x =>
      obtain ⟨next, t, ht⟩ := x
      rw [hstart] at hremains
      cases next with
      | none => simpa [remains, skipOn, afterValue, outcome] using hremains
      | some state =>
          simp only at hremains ⊢
          cases hfrom : skipFrom state t with
          | error fault => rw [hfrom] at hremains; cases hremains
          | ok u =>
              rw [hfrom] at hremains
              simpa [remains, skipOn, afterValue, outcome, Except.map, Tail.widen, Tail.reply]
                using hremains

end Phrasebook.Json
