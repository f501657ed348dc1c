import Mathlib.Tactic.SplitIfs
import Phrasebook.Json.Text
import Phrasebook.Source

/-!
# Proofs — Text — Quoted

Where names end in generated source.  A string literal is read by the reader of documents however
its characters are spelled (`SpellsChars.outcome_text`); as the source writes it, it is read back
(`text_quoted`), so it says which text it denotes and where it ends.  A bare identifier ends before
the first character that cannot be part of one.  Both together: the name of a property, followed by
a character that cannot be part of an identifier, is known from its text (`property_append_inj`).
-/

namespace Phrasebook.Text

/-! ### Runs of characters -/

/-- Two runs of characters of a kind, each followed by one that is not of it, end at the same
place. -/
theorem append_cons_inj {p : Char → Bool} {as bs r r' : List Char} {c d : Char}
    (ha : ∀ a ∈ as, p a = true) (hb : ∀ b ∈ bs, p b = true) (hc : p c = false) (hd : p d = false)
    (h : as ++ c :: r = bs ++ d :: r') : as = bs ∧ c = d ∧ r = r' := by
  induction as generalizing bs with
  | nil =>
      cases bs with
      | nil => exact ⟨rfl, List.cons.inj h⟩
      | cons b bs =>
          obtain ⟨rfl, -⟩ := List.cons.inj h
          rw [hb _ List.mem_cons_self] at hc
          cases hc
  | cons a as ih =>
      cases bs with
      | nil =>
          obtain ⟨rfl, -⟩ := List.cons.inj h
          rw [ha _ List.mem_cons_self] at hd
          cases hd
      | cons b bs =>
          obtain ⟨rfl, htail⟩ := List.cons.inj h
          obtain ⟨rfl, hrest⟩ := ih (fun x hx => ha x (List.mem_cons_of_mem _ hx))
            (fun x hx => hb x (List.mem_cons_of_mem _ hx)) htail
          exact ⟨rfl, hrest⟩

/-! ### Identifiers -/

theorem isIdentifierPart_of_isIdentifierStart {c : Char} (h : isIdentifierStart c = true) :
    isIdentifierPart c = true := by
  simp only [isIdentifierStart, isIdentifierPart, Char.isAlphanum, Bool.or_eq_true] at h ⊢
  rcases h with (h | h) | h
  · exact .inl (.inl (.inl h))
  · exact .inl (.inr h)
  · exact .inr h

/-- The characters of an identifier: a start, and parts. -/
theorem exists_cons_of_isIdentifier {name : String} (h : isIdentifier name = true) :
    ∃ c cs, name.toList = c :: cs ∧ isIdentifierStart c = true ∧
      ∀ d ∈ c :: cs, isIdentifierPart d = true := by
  unfold isIdentifier at h
  cases hname : name.toList with
  | nil => rw [hname] at h; cases h
  | cons c cs =>
      rw [hname] at h
      obtain ⟨hc, hcs⟩ := Bool.and_eq_true_iff.mp h
      refine ⟨c, cs, rfl, hc, fun d hd => ?_⟩
      rcases List.mem_cons.mp hd with rfl | hd
      · exact isIdentifierPart_of_isIdentifierStart hc
      · exact List.all_eq_true.mp hcs d hd

theorem isIdentifierPart_of_mem {name : String} (h : isIdentifier name = true) :
    ∀ d ∈ name.toList, isIdentifierPart d = true := by
  obtain ⟨c, cs, hname, -, hparts⟩ := exists_cons_of_isIdentifier h
  rwa [hname]

/-- Where an identifier stands, no other character comes first. -/
theorem append_ne_cons_of_isIdentifier {name : String} {c : Char} {r r' : List Char}
    (h : isIdentifier name = true) (hc : isIdentifierPart c = false) :
    name.toList ++ r ≠ c :: r' := by
  obtain ⟨d, ds, hname, -, hparts⟩ := exists_cons_of_isIdentifier h
  intro heq
  rw [hname] at heq
  obtain ⟨rfl, -⟩ := List.cons.inj heq
  rw [hparts _ List.mem_cons_self] at hc
  cases hc

/-! ### String literals -/

/-- Stands for itself in a string literal. -/
structure IsUnescaped (c : Char) : Prop where
  ne_quote : c ≠ '"'
  ne_slash : c ≠ '\\'
  le_toNat : 0x20 ≤ c.toNat

theorem isUnescaped_hexDigit {n : Nat} (h : n < 16) : IsUnescaped (hexDigit n) := by
  have digits : ∀ m : Fin 16, hexDigit m.val ≠ '"' ∧ hexDigit m.val ≠ '\\' ∧
      0x20 ≤ (hexDigit m.val).toNat := by decide
  obtain ⟨hquote, hslash, hcontrol⟩ := digits ⟨n, h⟩
  exact ⟨hquote, hslash, hcontrol⟩

/-- **What stands for a character in a literal**: the character itself, or a backslash, a character
that is no control, and then characters that stand for themselves. -/
theorem escape_cases (c : Char) :
    (escape c = [c] ∧ IsUnescaped c) ∨
      ∃ d ds, escape c = '\\' :: d :: ds ∧ 0x20 ≤ d.toNat ∧ ∀ x ∈ ds, IsUnescaped x := by
  unfold escape
  -- one case for each escape with a letter of its own, then the controls, then all that is plain
  split_ifs with hquote hslash _ _ _ _ _ hcontrol
  · exact .inr ⟨'"', [], rfl, by decide, by simp⟩
  · exact .inr ⟨'\\', [], rfl, by decide, by simp⟩
  · exact .inr ⟨'n', [], rfl, by decide, by simp⟩
  · exact .inr ⟨'r', [], rfl, by decide, by simp⟩
  · exact .inr ⟨'t', [], rfl, by decide, by simp⟩
  · exact .inr ⟨'b', [], rfl, by decide, by simp⟩
  · exact .inr ⟨'f', [], rfl, by decide, by simp⟩
  · have hzero : IsUnescaped '0' := isUnescaped_hexDigit (n := 0) (by decide)
    have hhigh := isUnescaped_hexDigit (n := c.toNat / 16) (by omega)
    have hlow := isUnescaped_hexDigit (n := c.toNat % 16) (by omega)
    refine .inr ⟨'u', ['0', '0', _, _], rfl, by decide, ?_⟩
    simp only [List.forall_mem_cons, List.not_mem_nil, false_implies, implies_true, and_true]
    exact ⟨hzero, hzero, hhigh, hlow⟩
  · exact .inl ⟨rfl, hquote, hslash, by omega⟩

/-- The two digits of a control character are read back. -/
theorem hexWord?_hexDigit {n : Nat} (h : n < 0x20) :
    Json.hexWord? '0' '0' (hexDigit (n / 16)) (hexDigit (n % 16)) = some n := by
  have digits : ∀ m : Fin 0x20,
      Json.hexWord? '0' '0' (hexDigit (m.val / 16)) (hexDigit (m.val % 16)) = some m.val := by
    decide
  exact digits ⟨n, h⟩

/-- What a reader gives, and what it leaves. -/
def outcome {α : Type} {s : List Char} : Except Json.Fault (Json.Reply α s) → Option (α × List Char)
  | .ok x => some (x.value, x.rest)
  | .error _ => none

theorem text_closing (rest : List Char) : outcome (Json.text ('"' :: rest)) = some ([], rest) := by
  rw [Json.text]
  rfl

theorem text_plain {c : Char} (h : IsUnescaped c) (rest : List Char) :
    outcome (Json.text (c :: rest)) =
      (outcome (Json.text rest)).map fun x => (c :: x.1, x.2) := by
  rw [Json.text]
  simp only [h.ne_quote, h.ne_slash, Nat.not_lt.mpr h.le_toNat, if_false]
  cases Json.text rest <;> rfl

theorem text_escape {c : Char} {s rest : List Char}
    (h : outcome (Json.escapeSequence s) = some (c, rest)) :
    outcome (Json.text ('\\' :: s)) =
      (outcome (Json.text rest)).map fun x => (c :: x.1, x.2) := by
  rw [Json.text]
  simp only [show ('\\' : Char) ≠ '"' by decide, if_false, if_true]
  cases hseq : Json.escapeSequence s with
  | error e => rw [hseq] at h; cases h
  | ok x =>
      rw [hseq] at h
      obtain ⟨rfl, rfl⟩ := Prod.mk.inj (Option.some.inj h)
      simp only
      cases Json.text x.rest <;> rfl

/-- What may stand for a character in a literal. -/
inductive SpellsChar : Char → List Char → Prop where
  | plain {c : Char} (h : IsUnescaped c) : SpellsChar c [c]
  | letter {c d : Char} (h : Json.simpleEscape? d = some c) : SpellsChar c ['\\', d]
  | unit {a b c d : Char} {n : Nat} (h : Json.hexWord? a b c d = some n)
      (hleading : Json.isLeadingUnit n = false) (htrailing : Json.isTrailingUnit n = false) :
      SpellsChar (Char.ofNat n) ['\\', 'u', a, b, c, d]
  | pair {a b c d a' b' c' d' : Char} {m n : Nat} (h : Json.hexWord? a b c d = some m)
      (h' : Json.hexWord? a' b' c' d' = some n) (hleading : Json.isLeadingUnit m = true)
      (htrailing : Json.isTrailingUnit n = true) :
      SpellsChar (Json.ofPair m n) ['\\', 'u', a, b, c, d, '\\', 'u', a', b', c', d']

/-- Behind its opening quote, the text starts with a literal for some characters. -/
inductive SpellsChars : List Char → List Char → List Char → Prop where
  | close {rest : List Char} : SpellsChars [] ('"' :: rest) rest
  | cons {c : Char} {cs spelled s rest : List Char} (h : SpellsChar c spelled)
      (hcs : SpellsChars cs s rest) : SpellsChars (c :: cs) (spelled ++ s) rest

/-- No letter of an escape starts a `\u` escape. -/
theorem simpleEscape?_u : Json.simpleEscape? 'u' = none := by
  decide

theorem hexWord_append {a b c d : Char} {n : Nat} (h : Json.hexWord? a b c d = some n)
    (rest : List Char) : Json.hexWord (a :: b :: c :: d :: rest) =
      .ok ⟨n, rest, Json.length_lt_of_four a b c d rest⟩ := by
  simp [Json.hexWord, h]

/-- No leading unit is a trailing one. -/
theorem isTrailingUnit_eq_false {n : Nat} (h : Json.isLeadingUnit n = true) :
    Json.isTrailingUnit n = false := by
  simp only [Json.isLeadingUnit, Json.isTrailingUnit, Bool.and_eq_true, decide_eq_true_eq,
    Bool.and_eq_false_iff, decide_eq_false_iff_not] at h ⊢
  omega

/-- **A character is read** from whatever stands for it, before the rest of a literal. -/
theorem SpellsChar.outcome_text {c : Char} {spelled : List Char} (h : SpellsChar c spelled)
    (s : List Char) :
    outcome (Json.text (spelled ++ s)) = (outcome (Json.text s)).map fun x => (c :: x.1, x.2) := by
  cases h with
  | plain h => exact text_plain h s
  | letter h => exact text_escape (by simp [Json.escapeSequence, h, outcome])
  | unit h hleading htrailing =>
      refine text_escape ?_
      simp [Json.escapeSequence, simpleEscape?_u, Json.unicodeEscape, hexWord_append h, hleading,
        htrailing, outcome, Except.map, Json.Reply.map, Json.Reply.widen]
  | pair h h' hleading htrailing =>
      refine text_escape ?_
      simp [Json.escapeSequence, simpleEscape?_u, Json.unicodeEscape, hexWord_append h,
        hexWord_append h', hleading, htrailing, isTrailingUnit_eq_false hleading,
        Json.trailingUnit, outcome, Except.map, Json.Reply.widen, Json.Reply.upTo, Json.Reply.tail,
        Json.Tail.reply]

/-- **A literal is read**, however it is spelled. -/
theorem SpellsChars.outcome_text {cs s rest : List Char} (h : SpellsChars cs s rest) :
    outcome (Json.text s) = some (cs, rest) := by
  induction h with
  | close => exact text_closing _
  | cons h _ ih => rw [h.outcome_text, ih]; rfl

/-- What the source writes for a character may stand for it. -/
theorem spellsChar_escape (c : Char) : SpellsChar c (escape c) := by
  unfold escape
  -- one case for each escape with a letter of its own, then the controls, then all that is plain
  split_ifs with hquote hslash h h h h h hcontrol
  · subst hquote; exact .letter (by decide)
  · subst hslash; exact .letter (by decide)
  · subst h; exact .letter (by decide)
  · subst h; exact .letter (by decide)
  · subst h; exact .letter (by decide)
  · subst h; exact .letter (by decide)
  · subst h; exact .letter (by decide)
  · have hunit := SpellsChar.unit (hexWord?_hexDigit hcontrol)
      (by simp only [Json.isLeadingUnit, Bool.and_eq_false_iff, decide_eq_false_iff_not]; omega)
      (by simp only [Json.isTrailingUnit, Bool.and_eq_false_iff, decide_eq_false_iff_not]; omega)
    rwa [Char.ofNat_toNat] at hunit
  · exact .plain ⟨hquote, hslash, by omega⟩

/-- What the source writes in quotes is a literal for the characters. -/
theorem spellsChars_flatMap_escape (rest : List Char) : ∀ cs : List Char,
    SpellsChars cs (cs.flatMap escape ++ '"' :: rest) rest
  | [] => .close
  | c :: cs => by
      rw [List.flatMap_cons, List.append_assoc]
      exact .cons (spellsChar_escape c) (spellsChars_flatMap_escape rest cs)

/-- **A string literal is read back**: its characters, and what follows its closing quote. -/
theorem text_quoted (cs rest : List Char) :
    outcome (Json.text (cs.flatMap escape ++ '"' :: rest)) = some (cs, rest) :=
  (spellsChars_flatMap_escape rest cs).outcome_text

/-- A string literal says which text it denotes and where it ends. -/
theorem quoteChars_append_inj {as bs r r' : List Char}
    (h : quoteChars as ++ r = quoteChars bs ++ r') : as = bs ∧ r = r' := by
  simp only [quoteChars, List.cons_append, List.append_assoc, List.nil_append,
    List.cons.injEq, true_and] at h
  have hread := text_quoted as r
  rw [h, text_quoted bs r'] at hread
  obtain ⟨rfl, rfl⟩ := Prod.mk.inj (Option.some.inj hread)
  exact ⟨rfl, rfl⟩

/-! ### Names of properties -/

theorem toList_quote (text : String) : (quote text).toList = quoteChars text.toList :=
  String.toList_ofList

/-- **The name of a property**, bare or quoted, says which name it is and where it ends, if no part
of an identifier follows. -/
theorem property_append_inj {a b : String} {c d : Char} {r r' : List Char}
    (hc : isIdentifierPart c = false) (hd : isIdentifierPart d = false)
    (h : (property a).toList ++ c :: r = (property b).toList ++ d :: r') :
    a = b ∧ c = d ∧ r = r' := by
  have hquote : isIdentifierPart '"' = false := by decide
  -- A bare name does not start with a quote, so that both names are of one kind.
  unfold property at h
  split_ifs at h with ha hb hb
  · obtain ⟨hab, hrest⟩ :=
      append_cons_inj (isIdentifierPart_of_mem ha) (isIdentifierPart_of_mem hb) hc hd h
    exact ⟨String.toList_inj.mp hab, hrest⟩
  · rw [toList_quote] at h
    exact absurd h (append_ne_cons_of_isIdentifier ha hquote)
  · rw [toList_quote] at h
    exact absurd h.symm (append_ne_cons_of_isIdentifier hb hquote)
  · rw [toList_quote, toList_quote] at h
    obtain ⟨hab, hrest⟩ := quoteChars_append_inj h
    exact ⟨String.toList_inj.mp hab, List.cons.inj hrest⟩

/-- The name of a property starts with a quote or with an identifier. -/
theorem property_append_ne_cons {name : String} {c : Char} {r r' : List Char} (hquote : c ≠ '"')
    (hc : isIdentifierPart c = false) : (property name).toList ++ r ≠ c :: r' := by
  unfold property
  split_ifs with h
  · exact append_ne_cons_of_isIdentifier h hc
  · rw [toList_quote]
    exact fun heq => hquote (List.cons.inj heq).1.symm

end Phrasebook.Text
