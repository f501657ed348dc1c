import Phrasebook.Section.Identity
import Phrasebook.Text.Identifier

/-!
# Proofs — Section — Name

The two names that a section has in generated modules.  Both are its *stem*, the letters of its
words with all but the first word capitalized: the variable has it behind `_`, the interface has it
capitalized behind `I`.  So both are identifiers, and each says as much as the other
(`variableName_eq_iff`): a stem starts with a small letter or a digit, which can be told from what
it is in upper case.
-/

namespace Phrasebook.Section

theorem toNat_lt_of_isWordChar {c : Char} (h : isWordChar c = true) : c.toNat < 128 := by
  rcases Bool.or_eq_true_iff.mp h with hlower | hdigit
  · have hlast : c.val ≤ 'z'.val := of_decide_eq_true (Bool.and_eq_true_iff.mp hlower).2
    exact Nat.lt_of_le_of_lt (UInt32.le_iff_toNat_le.mp hlast) (by decide)
  · have hlast : c.val ≤ '9'.val := of_decide_eq_true (Bool.and_eq_true_iff.mp hdigit).2
    exact Nat.lt_of_le_of_lt (UInt32.le_iff_toNat_le.mp hlast) (by decide)

/-- What holds of the small letters and digits among the ASCII characters holds of all of them. -/
theorem of_isWordChar {P : Char → Prop}
    (ascii : ∀ n : Fin 128, isWordChar (Char.ofNat n.val) = true → P (Char.ofNat n.val)) {c : Char}
    (h : isWordChar c = true) : P c := by
  have hchar := ascii ⟨c.toNat, toNat_lt_of_isWordChar h⟩
  rw [Char.ofNat_toNat] at hchar
  exact hchar h

/-- In upper case, a small letter or digit is still a letter or digit, and is known from it. -/
theorem toUpper_of_isWordChar {c : Char} (h : isWordChar c = true) :
    c.toUpper.isAlphanum = true ∧ c.toUpper.toLower = c :=
  of_isWordChar (P := fun c => c.toUpper.isAlphanum = true ∧ c.toUpper.toLower = c) (by decide) h

theorem isAlphanum_of_isWordChar {c : Char} (h : isWordChar c = true) : c.isAlphanum = true := by
  have hkinds : ((c.isUpper || c.isLower) || c.isDigit) = c.isAlphanum := rfl
  rw [← hkinds, Bool.or_assoc]
  exact Bool.or_eq_true_iff.mpr (.inr h)

/-- The first of some letters in upper case. -/
def capitalize : List Char → List Char
  | [] => []
  | c :: cs => c.toUpper :: cs

theorem Word.capitalized_eq (w : Word) : w.capitalized = capitalize w.letters := by
  unfold capitalized capitalize
  rfl

theorem Word.isAlphanum_of_mem_letters {w : Word} {c : Char} (h : c ∈ w.letters) :
    c.isAlphanum = true :=
  isAlphanum_of_isWordChar (w.all_isWordChar c h)

theorem Word.isAlphanum_of_mem_capitalized {w : Word} {c : Char} (h : c ∈ w.capitalized) :
    c.isAlphanum = true := by
  unfold capitalized at h
  split at h
  · cases h
  next first rest hletters =>
    have hword := w.all_isWordChar
    rw [hletters] at hword
    rcases List.mem_cons.mp h with rfl | h
    · exact (toUpper_of_isWordChar (hword first List.mem_cons_self)).1
    · exact isAlphanum_of_isWordChar (hword c (List.mem_cons_of_mem _ h))

namespace Identity

/-- The letters of the words, with all but the first word capitalized. -/
def stem (id : Identity) : List Char :=
  match id.words with
  | [] => []
  | w :: ws => w.letters ++ ws.flatMap Word.capitalized

theorem variableName_eq (id : Identity) : id.variableName = String.ofList ('_' :: id.stem) := by
  unfold variableName stem
  cases id.words <;> rfl

theorem interfaceName_eq (id : Identity) :
    id.interfaceName = String.ofList ('I' :: capitalize id.stem) := by
  unfold interfaceName stem
  split
  next hwords => rw [hwords]; rfl
  next w ws hwords =>
    rw [hwords, List.flatMap_cons, Word.capitalized_eq]
    cases hletters : w.letters with
    | nil => exact absurd hletters w.letters_ne_nil
    | cons c cs => rfl

/-- A stem starts with a small letter or a digit. -/
theorem isWordChar_of_stem {id : Identity} {c : Char} {cs : List Char} (h : id.stem = c :: cs) :
    isWordChar c = true := by
  unfold stem at h
  split at h
  · cases h
  next w ws hwords =>
    cases hletters : w.letters with
    | nil => exact absurd hletters w.letters_ne_nil
    | cons d ds =>
        rw [hletters, List.cons_append, List.cons.injEq] at h
        exact h.1 ▸ w.all_isWordChar d (hletters ▸ List.mem_cons_self)

theorem isAlphanum_of_mem_stem {id : Identity} {c : Char} (h : c ∈ id.stem) :
    c.isAlphanum = true := by
  unfold stem at h
  split at h
  · cases h
  next w ws hwords =>
    rcases List.mem_append.mp h with h | h
    · exact Word.isAlphanum_of_mem_letters h
    · obtain ⟨v, -, h⟩ := List.mem_flatMap.mp h
      exact Word.isAlphanum_of_mem_capitalized h

/-- **The variable and the interface are each known from the other.** -/
theorem variableName_eq_iff {a b : Identity} :
    a.variableName = b.variableName ↔ a.interfaceName = b.interfaceName := by
  simp only [variableName_eq, interfaceName_eq, String.ofList_inj, List.cons.injEq, true_and]
  constructor
  · exact congrArg capitalize
  · intro h
    cases ha : a.stem with
    | nil =>
        cases hb : b.stem with
        | nil => rfl
        | cons d ds => simp [ha, hb, capitalize] at h
    | cons c cs =>
        cases hb : b.stem with
        | nil => simp [ha, hb, capitalize] at h
        | cons d ds =>
            rw [ha, hb] at h
            obtain ⟨hfirst, hrest⟩ := List.cons.inj h
            have hc := (toUpper_of_isWordChar (isWordChar_of_stem ha)).2
            have hd := (toUpper_of_isWordChar (isWordChar_of_stem hb)).2
            rw [← hc, hfirst, hd, hrest]

/-! ### Names are identifiers -/

theorem isIdentifier_variableName (id : Identity) : Text.isIdentifier id.variableName = true := by
  rw [variableName_eq, Text.isIdentifier, String.toList_ofList]
  refine Bool.and_eq_true_iff.mpr ⟨rfl, List.all_eq_true.mpr fun c hc => ?_⟩
  simp [Text.isIdentifierPart, isAlphanum_of_mem_stem hc]

theorem isIdentifier_interfaceName (id : Identity) : Text.isIdentifier id.interfaceName = true := by
  rw [interfaceName_eq, Text.isIdentifier, String.toList_ofList]
  refine Bool.and_eq_true_iff.mpr ⟨rfl, List.all_eq_true.mpr fun c hc => ?_⟩
  cases hstem : id.stem with
  | nil => simp [hstem, capitalize] at hc
  | cons d ds =>
      rw [hstem] at hc
      rcases List.mem_cons.mp hc with rfl | hc
      · simp [Text.isIdentifierPart, (toUpper_of_isWordChar (isWordChar_of_stem hstem)).1]
      · have hd : c ∈ id.stem := hstem ▸ List.mem_cons_of_mem _ hc
        simp [Text.isIdentifierPart, isAlphanum_of_mem_stem hd]

end Identity

end Phrasebook.Section
