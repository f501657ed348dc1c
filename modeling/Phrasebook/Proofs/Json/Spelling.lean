import Mathlib.Data.List.Basic
import Phrasebook.Json.Numeral
import Phrasebook.Json.Value
import Phrasebook.Proofs.Text.Quoted

/-!
# Proofs — Json — Spelling

All texts of a value (`Value.IsTextOf`).  Blanks may stand before every part of a text, a character
of a literal may be escaped, the digits of a number may go on behind a point and with an exponent,
and the members of an object stand in their order, repeated names included.  A number that is too
large for any value is the text of every number.

The grammar (`Spells`) says of a text which value it starts with and what is left behind it, as the
readers do, so that a reader is followed along the grammar.  The readers of the parts come first:
each gives what is spelled and stops right behind it.
-/

namespace Phrasebook.Json

open Text (outcome SpellsChars)

theorem outcome_eq_some_iff {α : Type} {s behind : List Char}
    {result : Except Fault (Reply α s)} {a : α} :
    outcome result = some (a, behind) ↔ ∃ h, result = .ok ⟨a, behind, h⟩ := by
  cases result with
  | error fault => simp [outcome]
  | ok x =>
      constructor
      · intro h
        obtain ⟨rfl, rfl⟩ := Prod.mk.inj (Option.some.inj h)
        exact ⟨x.shorter, rfl⟩
      · rintro ⟨h, heq⟩
        rw [Except.ok.inj heq]
        rfl

/-! ### Blanks -/

/-- The text `s` is blank up to `t`. -/
def IsBlankUpTo (s t : List Char) : Prop :=
  ∃ blanks, s = blanks ++ t ∧ blanks.all isBlank = true

theorem IsBlankUpTo.refl (s : List Char) : IsBlankUpTo s s :=
  ⟨[], rfl, rfl⟩

theorem IsBlankUpTo.skipBlank_eq_skipBlank {s t : List Char} (h : IsBlankUpTo s t) :
    skipBlank s = skipBlank t := by
  obtain ⟨blanks, rfl, hblanks⟩ := h
  exact List.dropWhile_append_of_pos (List.all_eq_true.mp hblanks)

theorem IsBlankUpTo.skipBlank_eq {s t : List Char} {c : Char} (h : IsBlankUpTo s (c :: t))
    (hc : isBlank c = false) : skipBlank s = c :: t := by
  rw [h.skipBlank_eq_skipBlank, skipBlank, List.dropWhile_cons_of_neg (by simp [hc])]

/-! ### Literals that are skipped -/

theorem skipText_closing (rest : List Char) :
    outcome (skipText ('"' :: rest)) = some ((), rest) := by
  rw [skipText]
  rfl

theorem skipText_plain {c : Char} (h : Text.IsUnescaped c) (s : List Char) :
    outcome (skipText (c :: s)) = outcome (skipText s) := by
  rw [skipText]
  simp only [h.ne_quote, h.ne_slash, Nat.not_lt.mpr h.le_toNat, if_false]
  cases skipText s <;> rfl

theorem skipText_escape {s rest : List Char} (h : outcome (skipEscape s) = some ((), rest)) :
    outcome (skipText ('\\' :: s)) = outcome (skipText rest) := by
  obtain ⟨hrest, h⟩ := outcome_eq_some_iff.mp h
  rw [skipText]
  simp only [show ('\\' : Char) ≠ '"' by decide, if_false, if_true, h]
  cases skipText rest <;> rfl

theorem skipText_unit {a b c d : Char} {n : Nat} (h : hexWord? a b c d = some n)
    (s : List Char) :
    outcome (skipText ('\\' :: 'u' :: a :: b :: c :: d :: s)) = outcome (skipText s) := by
  refine skipText_escape ?_
  simp [skipEscape, Text.simpleEscape?_u, Text.hexWord_append h, outcome, Except.map, Reply.map,
    Reply.widen]

/-- **A literal is skipped**, however it is spelled. -/
theorem outcome_skipText {cs s rest : List Char} (h : SpellsChars cs s rest) :
    outcome (skipText s) = some ((), rest) := by
  induction h with
  | close => exact skipText_closing _
  | cons h _ ih =>
      rw [← ih]
      cases h with
      | plain h => exact skipText_plain h _
      | letter h => exact skipText_escape (by simp [skipEscape, h, outcome])
      | unit h => exact skipText_unit h _
      | pair h h' => exact (skipText_unit h _).trans (skipText_unit h' _)

/-! ### Numbers -/

/-- Digits, and not none. -/
structure IsDigits (ds : List Char) : Prop where
  ne_nil : ds ≠ []
  all_isDigit : ds.all Char.isDigit = true

theorem IsDigits.exists_cons {ds : List Char} (h : IsDigits ds) :
    ∃ d ds', ds = d :: ds' ∧ d.isDigit = true ∧ ds'.all Char.isDigit = true := by
  obtain ⟨hne, hall⟩ := h
  cases ds with
  | nil => exact absurd rfl hne
  | cons d ds' => exact ⟨d, ds', rfl, by simpa using hall⟩

/-- What follows a number does not go on with it. -/
def EndsNumber (rest : List Char) : Prop :=
  ∀ c ∈ rest.head?, c.isDigit = false ∧ c ≠ '.' ∧ c ≠ 'e' ∧ c ≠ 'E'

namespace Numeral

/-- Digits as a number may have them: nothing follows a zero that comes first. -/
structure IsProper (n : Numeral) : Prop where
  whole : IsDigits n.whole
  zero : n.whole.head? = some '0' → n.whole = ['0']
  fraction : ∀ ds ∈ n.fraction, IsDigits ds
  exponent : ∀ e ∈ n.exponent, IsDigits e.2

/-- A sign of an exponent, by whether it is negative. -/
inductive SpellsSign : Bool → List Char → Prop where
  | none : SpellsSign false []
  | plus : SpellsSign false ['+']
  | minus : SpellsSign true ['-']

/-- An exponent, or nothing. -/
inductive SpellsExponent : Option (Bool × List Char) → List Char → Prop where
  | none : SpellsExponent none []
  | some {mark : Char} {negative : Bool} {sign ds : List Char} (hmark : mark = 'e' ∨ mark = 'E')
      (hsign : SpellsSign negative sign) :
      SpellsExponent (some (negative, ds)) (mark :: (sign ++ ds))

/-- A number with these digits. -/
inductive Spells (n : Numeral) : List Char → Prop where
  | of {exponent : List Char} (hproper : n.IsProper) (h : SpellsExponent n.exponent exponent) :
      Spells n ((if n.negative then ['-'] else []) ++
        (n.whole ++ (n.fraction.elim [] ('.' :: ·) ++ exponent)))

end Numeral

/-- The text does not go on with a digit. -/
def EndsDigits (rest : List Char) : Prop :=
  ∀ c ∈ rest.head?, c.isDigit = false

theorem EndsNumber.endsDigits {rest : List Char} (h : EndsNumber rest) : EndsDigits rest :=
  fun c hc => (h c hc).1

theorem digits_append {ds rest : List Char} (hds : ds.all Char.isDigit = true)
    (hrest : EndsDigits rest) : digits (ds ++ rest) = (ds, rest) := by
  have hall : ∀ d ∈ ds, d.isDigit = true := List.all_eq_true.mp hds
  rw [digits, List.takeWhile_append_of_pos hall, List.dropWhile_append_of_pos hall]
  cases rest with
  | nil => simp
  | cons c cs => simp [hrest c rfl]

theorem outcome_someDigits (atEnd : Cause) {ds rest : List Char} (hds : IsDigits ds)
    (hrest : EndsDigits rest) : outcome (someDigits atEnd (ds ++ rest)) = some (ds, rest) := by
  obtain ⟨d, ds, rfl, hd, hall⟩ := hds.exists_cons
  simp [someDigits, hd, digits_append hall hrest, outcome]

theorem outcome_wholeDigits (atEnd : Cause) {ds rest : List Char} (hds : IsDigits ds)
    (hzero : ds.head? = some '0' → ds = ['0']) (hrest : EndsDigits rest) :
    outcome (wholeDigits atEnd (ds ++ rest)) = some (ds, rest) := by
  have hsome := outcome_someDigits atEnd hds hrest
  generalize hs : ds ++ rest = s at hsome ⊢
  unfold wholeDigits
  split
  · next c cs =>
      -- a zero stands alone, so what comes behind it is no digit
      have hhead : ds.head? = some '0' := by
        rw [← List.head?_append_of_ne_nil ds hds.ne_nil, hs]; rfl
      obtain rfl := hzero hhead
      obtain rfl : rest = c :: cs := (List.cons.inj hs).2
      simp [hrest c rfl, outcome]
  · exact hsome

/-- What a part of a number that may be missing is read as, and what is left. -/
def optionalOutcome {α : Type} {s : List Char} :
    Except Fault (Option α × Tail s) → Option (Option α × List Char)
  | .ok x => some (x.1, x.2.1)
  | .error _ => none

theorem optionalOutcome_eq_some_iff {α : Type} {s rest : List Char}
    {result : Except Fault (Option α × Tail s)} {a : Option α} :
    optionalOutcome result = some (a, rest) ↔ ∃ h, result = .ok (a, ⟨rest, h⟩) := by
  cases result with
  | error fault => simp [optionalOutcome]
  | ok x =>
      constructor
      · intro h
        obtain ⟨rfl, rfl⟩ := Prod.mk.inj (Option.some.inj h)
        exact ⟨x.2.2, rfl⟩
      · rintro ⟨h, heq⟩
        rw [Except.ok.inj heq]
        rfl

theorem optionalOutcome_fractionDigits (atEnd : Cause) {fraction : Option (List Char)}
    {rest : List Char} (hfraction : ∀ ds ∈ fraction, IsDigits ds) (hrest : EndsDigits rest)
    (hpoint : rest.head? ≠ some '.') :
    optionalOutcome (fractionDigits atEnd (fraction.elim [] ('.' :: ·) ++ rest)) =
      some (fraction, rest) := by
  cases fraction with
  | none =>
      rw [Option.elim_none, List.nil_append]
      unfold fractionDigits
      split
      · exact absurd rfl hpoint
      · rfl
  | some ds =>
      obtain ⟨h, hread⟩ := outcome_eq_some_iff.mp
        (outcome_someDigits atEnd (hfraction ds rfl) hrest)
      simp [fractionDigits, hread, Reply.tail, Tail.widen, optionalOutcome]

/-- A digit is no sign. -/
theorem exponentSign_digit {d : Char} (hd : d.isDigit = true) (s : List Char) :
    exponentSign (d :: s) = (false, .all (d :: s)) := by
  have hplus : d ≠ '+' := by rintro rfl; exact absurd hd (by decide)
  have hminus : d ≠ '-' := by rintro rfl; exact absurd hd (by decide)
  simp [exponentSign, hplus, hminus]

theorem exponentSign_append {negative : Bool} {sign ds : List Char}
    (hsign : Numeral.SpellsSign negative sign) (hds : IsDigits ds) (rest : List Char) :
    ∃ h, exponentSign (sign ++ (ds ++ rest)) = (negative, ⟨ds ++ rest, h⟩) := by
  cases hsign with
  | plus | minus => exact ⟨_, rfl⟩
  | none =>
      obtain ⟨d, ds, rfl, hd, -⟩ := hds.exists_cons
      exact ⟨_, exponentSign_digit hd (ds ++ rest)⟩

theorem optionalOutcome_exponentDigits (atEnd : Cause) {exponent : Option (Bool × List Char)}
    {spelled rest : List Char} (h : Numeral.SpellsExponent exponent spelled)
    (hexponent : ∀ e ∈ exponent, IsDigits e.2) (hrest : EndsNumber rest) :
    optionalOutcome (exponentDigits atEnd (spelled ++ rest)) = some (exponent, rest) := by
  cases h with
  | none =>
      cases rest with
      | nil => rfl
      | cons c cs =>
          obtain ⟨-, -, he, hE⟩ := hrest c rfl
          simp [exponentDigits, he, hE, Tail.all, optionalOutcome]
  | @some mark negative sign ds hmark hsign =>
      have hds : IsDigits ds := hexponent _ rfl
      obtain ⟨hle, hread⟩ := exponentSign_append hsign hds rest
      obtain ⟨hlt, hdigits⟩ :=
        outcome_eq_some_iff.mp (outcome_someDigits atEnd hds hrest.endsDigits)
      rw [List.cons_append, List.append_assoc, exponentDigits, if_pos hmark, hread]
      simp only [hdigits]
      rfl

/-- What starts an exponent, or follows a number, is neither a digit nor a point. -/
theorem Numeral.SpellsExponent.endsDigits {exponent : Option (Bool × List Char)}
    {spelled rest : List Char} (h : SpellsExponent exponent spelled) (hrest : EndsNumber rest) :
    EndsDigits (spelled ++ rest) ∧ (spelled ++ rest).head? ≠ Option.some '.' := by
  cases h with
  | none => exact ⟨hrest.endsDigits, fun hpoint => (hrest _ hpoint).2.1 rfl⟩
  | some hmark =>
      rcases hmark with rfl | rfl <;> exact ⟨fun c hc => by cases hc; decide, by simp⟩

theorem outcome_unsignedNumeral (atEnd : Cause) {n : Numeral} {exponent rest : List Char}
    (hproper : n.IsProper) (h : Numeral.SpellsExponent n.exponent exponent)
    (hrest : EndsNumber rest) :
    outcome (unsignedNumeral atEnd n.negative
      (n.whole ++ (n.fraction.elim [] ('.' :: ·) ++ (exponent ++ rest)))) = some (n, rest) := by
  obtain ⟨hdigits, hpoint⟩ := h.endsDigits hrest
  have hfraction : EndsDigits (n.fraction.elim [] ('.' :: ·) ++ (exponent ++ rest)) := by
    cases n.fraction with
    | none => exact hdigits
    | some ds => intro c hc; cases hc; decide
  obtain ⟨_, hwhole⟩ := outcome_eq_some_iff.mp
    (outcome_wholeDigits atEnd hproper.whole hproper.zero hfraction)
  obtain ⟨_, hfraction⟩ := optionalOutcome_eq_some_iff.mp
    (optionalOutcome_fractionDigits atEnd hproper.fraction hdigits hpoint)
  obtain ⟨_, hexponent⟩ := optionalOutcome_eq_some_iff.mp
    (optionalOutcome_exponentDigits atEnd h hproper.exponent hrest)
  rw [unsignedNumeral, hwhole]
  simp only [hfraction, hexponent]
  rfl

theorem numeral_digit (atEnd : Cause) {d : Char} (hd : d.isDigit = true) (s : List Char) :
    numeral atEnd (d :: s) = unsignedNumeral atEnd false (d :: s) := by
  have hminus : d ≠ '-' := by rintro rfl; exact absurd hd (by decide)
  simp [numeral, hminus]

/-- **The digits of a number are read**, however they are spelled. -/
theorem Numeral.Spells.outcome_numeral (atEnd : Cause) {n : Numeral} {spelled rest : List Char}
    (h : n.Spells spelled) (hrest : EndsNumber rest) :
    outcome (numeral atEnd (spelled ++ rest)) = some (n, rest) := by
  cases h with
  | @of exponent hproper h =>
      have hread := outcome_unsignedNumeral atEnd hproper h hrest
      obtain ⟨d, ds, hwhole, hd, -⟩ := hproper.whole.exists_cons
      rw [hwhole, List.cons_append] at hread
      rw [hwhole, List.append_assoc, List.append_assoc, List.append_assoc, List.cons_append]
      cases hnegative : n.negative with
      | true =>
          obtain ⟨_, hread⟩ := outcome_eq_some_iff.mp (hnegative ▸ hread)
          rw [if_pos rfl, List.singleton_append, numeral, hread]
          rfl
      | false =>
          rw [if_neg (by decide), List.nil_append, numeral_digit atEnd hd, ← hnegative]
          exact hread

/-- A number starts with its sign or with a digit. -/
theorem Numeral.Spells.exists_cons {n : Numeral} {spelled : List Char} (h : n.Spells spelled) :
    ∃ c cs, spelled = c :: cs ∧ (c = '-' ∨ c.isDigit = true) := by
  cases h with
  | of hproper h =>
      obtain ⟨d, ds, hwhole, hd, -⟩ := hproper.whole.exists_cons
      rw [hwhole]
      cases n.negative with
      | true => exact ⟨'-', _, rfl, .inl rfl⟩
      | false => exact ⟨d, _, rfl, .inr hd⟩

/-! ### Values -/

/-- Before a member of a list or an object there is a comma, but not before the first. -/
inductive SpellsComma : Bool → List Char → List Char → Prop where
  | first {s : List Char} : SpellsComma true s s
  | comma {s t : List Char} (h : IsBlankUpTo s (',' :: t)) : SpellsComma false s t

mutual

/-- The text starts with a value, and then there is the rest. -/
inductive Spells : Value → List Char → List Char → Prop where
  | null {s rest : List Char} (h : IsBlankUpTo s ('n' :: 'u' :: 'l' :: 'l' :: rest)) :
      Spells .null s rest
  | true {s rest : List Char} (h : IsBlankUpTo s ('t' :: 'r' :: 'u' :: 'e' :: rest)) :
      Spells (.bool true) s rest
  | false {s rest : List Char} (h : IsBlankUpTo s ('f' :: 'a' :: 'l' :: 's' :: 'e' :: rest)) :
      Spells (.bool false) s rest
  | number {n : Numeral} {x : Number} {s spelled rest : List Char}
      (h : IsBlankUpTo s (spelled ++ rest)) (hn : n.Spells spelled)
      (hvalue : ∀ y, n.value = .ok y → y = x) (hrest : EndsNumber rest) :
      Spells (.number x) s rest
  | text {cs s t rest : List Char} (h : IsBlankUpTo s ('"' :: t)) (hcs : SpellsChars cs t rest) :
      Spells (.text (String.ofList cs)) s rest
  | list {items : List Value} {s t rest : List Char} (h : IsBlankUpTo s ('[' :: t))
      (hitems : SpellsItems true items t rest) : Spells (.list items) s rest
  | object {members : List (String × Value)} {s t rest : List Char}
      (h : IsBlankUpTo s ('\x7b' :: t)) (hmembers : SpellsMembers true members t rest) :
      Spells (.object members) s rest

/-- Inside a list, the text goes on with some items and the bracket; the first of them is the first
of all or not. -/
inductive SpellsItems : Bool → List Value → List Char → List Char → Prop where
  | close {first : Bool} {s rest : List Char} (h : IsBlankUpTo s (']' :: rest)) :
      SpellsItems first [] s rest
  | cons {first : Bool} {v : Value} {items : List Value} {s t u rest : List Char}
      (h : SpellsComma first s t) (hv : Spells v t u) (hitems : SpellsItems false items u rest) :
      SpellsItems first (v :: items) s rest

/-- Inside an object, the text goes on with some members and the brace. -/
inductive SpellsMembers : Bool → List (String × Value) → List Char → List Char → Prop where
  | close {first : Bool} {s rest : List Char} (h : IsBlankUpTo s ('\x7d' :: rest)) :
      SpellsMembers first [] s rest
  | cons {first : Bool} {key : List Char} {v : Value} {members : List (String × Value)}
      {s t u after w x rest : List Char} (h : SpellsComma first s t)
      (hquote : IsBlankUpTo t ('"' :: u)) (hkey : SpellsChars key u after)
      (hcolon : IsBlankUpTo after (':' :: w)) (hv : Spells v w x)
      (hmembers : SpellsMembers false members x rest) :
      SpellsMembers first ((String.ofList key, v) :: members) s rest

end

/-- The text holds the value and nothing else. -/
def Value.IsTextOf (v : Value) (content : String) : Prop :=
  ∃ rest, Spells v content.toList rest ∧ IsBlankUpTo rest []

theorem isBlank_eq_false_of_numeral {c : Char} (h : c = '-' ∨ c.isDigit = true) :
    isBlank c = false := by
  rw [Bool.eq_false_iff]
  intro hblank
  simp only [isBlank, Bool.or_eq_true, beq_iff_eq] at hblank
  rcases hblank with ((rfl | rfl) | rfl) | rfl <;> exact absurd h (by decide)

/-- A value does not start as a list ends, and is the same behind the blanks before it. -/
theorem Spells.exists_skipBlank {v : Value} {s rest : List Char} (h : Spells v s rest) :
    ∃ c cs, skipBlank s = c :: cs ∧ c ≠ ']' ∧ Spells v (c :: cs) rest := by
  cases h with
  | null h => exact ⟨_, _, h.skipBlank_eq rfl, by decide, .null (.refl _)⟩
  | true h => exact ⟨_, _, h.skipBlank_eq rfl, by decide, .true (.refl _)⟩
  | false h => exact ⟨_, _, h.skipBlank_eq rfl, by decide, .false (.refl _)⟩
  | number h hn hvalue hrest =>
      obtain ⟨c, cs, rfl, hc⟩ := hn.exists_cons
      refine ⟨_, _, h.skipBlank_eq (isBlank_eq_false_of_numeral hc), ?_,
        .number (.refl _) hn hvalue hrest⟩
      rintro rfl
      exact absurd hc (by decide)
  | text h hcs => exact ⟨_, _, h.skipBlank_eq rfl, by decide, .text (.refl _) hcs⟩
  | list h hitems => exact ⟨_, _, h.skipBlank_eq rfl, by decide, .list (.refl _) hitems⟩
  | object h hmembers => exact ⟨_, _, h.skipBlank_eq rfl, by decide, .object (.refl _) hmembers⟩

/-! ### Colons, commas and what closes -/

variable {first : Bool} {s t u rest : List Char}

theorem colon_eq (h : IsBlankUpTo s (':' :: t)) : ∃ ht, colon s = .ok ⟨t, ht⟩ := by
  have hs := h.skipBlank_eq rfl
  refine ⟨length_tail_le_of_skipBlank hs, ?_⟩
  unfold colon
  split <;> grind

theorem nextKey_close (h : IsBlankUpTo s ('\x7d' :: rest)) : nextKey first s = .ok none := by
  have hs := h.skipBlank_eq rfl
  unfold nextKey
  split <;> grind

theorem nextKey_quote (h : SpellsComma first s t) (hquote : IsBlankUpTo t ('"' :: u)) :
    ∃ hu, nextKey first s = .ok (some ⟨u, hu⟩) := by
  have ht := hquote.skipBlank_eq rfl
  cases h with
  | first =>
      refine ⟨length_tail_le_of_skipBlank ht, ?_⟩
      unfold nextKey
      split <;> grind
  | comma h =>
      have hs := h.skipBlank_eq rfl
      refine ⟨length_tail_le_of_skipBlank_skipBlank hs ht, ?_⟩
      unfold nextKey
      split <;> grind

theorem outcome_closeObject (h : IsBlankUpTo s ('\x7d' :: rest)) :
    outcome (closeObject s) = some ((), rest) := by
  have hs := h.skipBlank_eq rfl
  unfold closeObject
  split <;> simp_all [outcome]

theorem nextItem_close (h : IsBlankUpTo s (']' :: rest)) : nextItem first s = .ok none := by
  have hs := h.skipBlank_eq rfl
  unfold nextItem
  split <;> grind

theorem nextItem_value {c : Char} (h : SpellsComma first s t) (ht : skipBlank t = c :: u)
    (hc : c ≠ ']') : ∃ hu, nextItem first s = .ok (some ⟨c :: u, hu⟩) := by
  cases h with
  | first =>
      refine ⟨length_le_of_skipBlank ht, ?_⟩
      unfold nextItem
      split <;> grind
  | comma h =>
      have hs := h.skipBlank_eq rfl
      refine ⟨length_le_of_skipBlank_skipBlank hs ht, ?_⟩
      unfold nextItem
      split <;> grind

theorem outcome_closeList (h : IsBlankUpTo s (']' :: rest)) :
    outcome (closeList s) = some ((), rest) := by
  have hs := h.skipBlank_eq rfl
  unfold closeList
  split <;> simp_all [outcome]

/-! ### Values that have a text -/

/-- The value can be written before anything else. -/
def Value.IsWritable (v : Value) : Prop :=
  ∀ rest, ∃ s, Spells v s rest

namespace Value

theorem isWritable_null : IsWritable .null :=
  fun _ => ⟨_, .null (.refl _)⟩

theorem isWritable_text (t : String) : IsWritable (.text t) := by
  intro rest
  rw [← String.ofList_toList (s := t)]
  exact ⟨_, .text (.refl _) (Text.spellsChars_flatMap_escape rest t.toList)⟩

theorem isWritable_list {items : List Value} (h : ∀ v ∈ items, v.IsWritable) :
    IsWritable (.list items) := by
  intro rest
  have hitems : ∀ first, ∃ s, SpellsItems first items s rest := by
    induction items with
    | nil => exact fun _ => ⟨_, .close (.refl _)⟩
    | cons v items ih =>
        obtain ⟨hv, hitems⟩ := List.forall_mem_cons.mp h
        obtain ⟨u, hu⟩ := ih hitems false
        obtain ⟨t, ht⟩ := hv u
        rintro (_ | _)
        · exact ⟨_, .cons (.comma (.refl _)) ht hu⟩
        · exact ⟨_, .cons .first ht hu⟩
  obtain ⟨s, hs⟩ := hitems true
  exact ⟨_, .list (.refl _) hs⟩

theorem isWritable_object {members : List (String × Value)}
    (h : ∀ m ∈ members, m.2.IsWritable) : IsWritable (.object members) := by
  intro rest
  have hmembers : ∀ first, ∃ s, SpellsMembers first members s rest := by
    induction members with
    | nil => exact fun _ => ⟨_, .close (.refl _)⟩
    | cons m members ih =>
        obtain ⟨key, v⟩ := m
        obtain ⟨hv, hmembers⟩ := List.forall_mem_cons.mp h
        obtain ⟨u, hu⟩ := ih hmembers false
        obtain ⟨t, ht⟩ := hv u
        have hkey := Text.spellsChars_flatMap_escape (':' :: t) key.toList
        rw [← String.ofList_toList (s := key)]
        rintro (_ | _)
        · exact ⟨_, .cons (.comma (.refl _)) (.refl _) hkey (.refl _) ht hu⟩
        · exact ⟨_, .cons .first (.refl _) hkey (.refl _) ht hu⟩
  obtain ⟨s, hs⟩ := hmembers true
  exact ⟨_, .object (.refl _) hs⟩

theorem IsWritable.exists_isTextOf {v : Value} (h : v.IsWritable) :
    ∃ content, v.IsTextOf content := by
  obtain ⟨s, hs⟩ := h []
  exact ⟨String.ofList s, [], by rwa [String.toList_ofList], .refl _⟩

end Value

end Phrasebook.Json
