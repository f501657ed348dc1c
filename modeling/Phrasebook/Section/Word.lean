/-!
# Section — Word

The words of a path segment.  A segment is cut before every capital that stands directly after a
small letter or a digit, and of each piece the ASCII letters and digits are kept, in lower case;
pieces of which nothing is left are no words.  `wordsOf` does this in one pass over the segment.
-/

namespace Phrasebook.Section

/-- An ASCII lower case letter or a digit. -/
def isWordChar (c : Char) : Bool :=
  c.isLower || c.isDigit

/-- One or more lower case letters and digits. -/
structure Word where
  letters : List Char
  letters_ne_nil : letters ≠ []
  all_isWordChar : ∀ c ∈ letters, isWordChar c = true
  deriving DecidableEq

namespace Word

/-- The word as text. -/
def text (w : Word) : String :=
  String.ofList w.letters

/-- The letters of the word with the first one in upper case. -/
def capitalized (w : Word) : List Char :=
  match w.letters with
  | [] => []
  | c :: cs => c.toUpper :: cs

end Word

/-- What a character adds to a word: itself in lower case, or nothing. -/
def kept (c : Char) : List Char :=
  if c.isAlphanum then [c.toLower] else []

/-- The pieces of a segment, given the letters of the piece before it and whether the character
before it is a small letter or a digit. -/
def piecesFrom (current : List Char) (afterSmall : Bool) : List Char → List (List Char)
  | [] => if current = [] then [] else [current]
  | c :: cs =>
      if c.isUpper && afterSmall && !current.isEmpty then
        current :: piecesFrom (kept c) (isWordChar c) cs
      else
        piecesFrom (current ++ kept c) (isWordChar c) cs

/-- A capital in lower case belongs in a word. -/
theorem isWordChar_toLower_of_isUpper {c : Char} (h : c.isUpper = true) :
    isWordChar c.toLower = true := by
  have capitals : ∀ n : Fin 26, isWordChar (Char.ofNat (n.val + 65)).toLower = true := by decide
  have hupper : 65 ≤ c.val ∧ c.val ≤ 90 := of_decide_eq_true h
  have hn : c.toNat - 65 < 26 ∧ 65 ≤ c.toNat := by
    have h₁ : 65 ≤ c.toNat := hupper.1
    have h₂ : c.toNat ≤ 90 := hupper.2
    omega
  have hc : Char.ofNat (c.toNat - 65 + 65) = c := by
    rw [Nat.sub_add_cancel hn.2]; exact Char.ofNat_toNat c
  simpa [hc] using capitals ⟨c.toNat - 65, hn.1⟩

/-- What is kept of a character belongs in a word. -/
theorem isWordChar_of_mem_kept {c d : Char} (h : d ∈ kept c) : isWordChar d = true := by
  unfold kept at h
  split at h
  · rename_i hc
    obtain rfl : d = c.toLower := by simpa using h
    by_cases hu : c.isUpper = true
    · exact isWordChar_toLower_of_isUpper hu
    · have hl : c.toLower = c := by
        unfold Char.toLower
        exact dif_neg fun hupper => hu (decide_eq_true hupper)
      rw [hl]
      have hkinds : ((c.isUpper || c.isLower) || c.isDigit) = true := hc
      simp only [Bool.or_eq_true] at hkinds
      rcases hkinds with (hc | hc) | hc
      · exact absurd hc hu
      · simp [isWordChar, hc]
      · simp [isWordChar, hc]
  · simp at h

/-- Every piece has a letter, and letters and digits only. -/
theorem piecesFrom_isWord (cs : List Char) (current : List Char) (afterSmall : Bool)
    (hcurrent : ∀ c ∈ current, isWordChar c = true) :
    ∀ p ∈ piecesFrom current afterSmall cs, p ≠ [] ∧ ∀ c ∈ p, isWordChar c = true := by
  induction cs generalizing current afterSmall with
  | nil =>
      intro p hp
      by_cases h : current = []
      · simp [piecesFrom, h] at hp
      · obtain rfl : p = current := by simpa [piecesFrom, h] using hp
        exact ⟨h, hcurrent⟩
  | cons c cs ih =>
      intro p hp
      simp only [piecesFrom] at hp
      split at hp
      · rename_i hc
        rcases List.mem_cons.mp hp with rfl | hp
        · exact ⟨by simp at hc; exact hc.2, hcurrent⟩
        · exact ih _ _ (fun d hd => isWordChar_of_mem_kept hd) p hp
      · refine ih _ _ (fun d hd => ?_) p hp
        rcases List.mem_append.mp hd with hd | hd
        · exact hcurrent d hd
        · exact isWordChar_of_mem_kept hd

/-- The pieces of a whole segment. -/
def pieces (segment : List Char) : List (List Char) :=
  piecesFrom [] false segment

/-- The words of a path segment. -/
def wordsOf (segment : String) : List Word :=
  (pieces segment.toList).attach.map fun ⟨p, h⟩ =>
    have hp := piecesFrom_isWord segment.toList [] false (by simp) p h
    ⟨p, hp.1, hp.2⟩

/-- The letters of the words are the pieces. -/
theorem map_letters_wordsOf (segment : String) :
    (wordsOf segment).map Word.letters = pieces segment.toList := by
  simp [wordsOf, Function.comp_def]

end Phrasebook.Section
