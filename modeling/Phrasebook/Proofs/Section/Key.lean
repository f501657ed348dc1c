import Phrasebook.Proofs.Text.Quoted
import Phrasebook.Section.Identity

/-!
# Proofs — Section — Key

A key says which words it was joined from: words hold no dash and are not empty.  As an identity is
its words, two sections with one key have one identity (`key_inj`), and so the same variable and the
same interface.
-/

namespace Phrasebook.Section

theorem Word.letters_inj {v w : Word} (h : v.letters = w.letters) : v = w := by
  cases v; cases w; cases h; rfl

/-- The letters of words with dashes between them. -/
def dashed (words : List Word) : List Char :=
  List.intercalate ['-'] (words.map Word.letters)

theorem dashed_singleton (w : Word) : dashed [w] = w.letters := by
  simp [dashed]

theorem dashed_cons_cons (v w : Word) (ws : List Word) :
    dashed (v :: w :: ws) = v.letters ++ '-' :: dashed (w :: ws) := by
  simp [dashed, List.intercalate_cons_cons]

theorem dashed_cons_ne_nil (w : Word) (ws : List Word) : dashed (w :: ws) ≠ [] := by
  cases ws with
  | nil => rw [dashed_singleton]; exact w.letters_ne_nil
  | cons v vs => simp [dashed_cons_cons]

/-- A word holds no dash. -/
theorem Word.dash_not_mem (w : Word) : '-' ∉ w.letters := fun h =>
  absurd (w.all_isWordChar _ h) (by decide)

/-- Words are known from their letters with dashes between them. -/
theorem dashed_inj {vs ws : List Word} (h : dashed vs = dashed ws) : vs = ws := by
  induction vs generalizing ws with
  | nil =>
      cases ws with
      | nil => rfl
      | cons w ws => exact absurd h.symm (dashed_cons_ne_nil w ws)
  | cons v vs ih =>
      cases ws with
      | nil => exact absurd h (dashed_cons_ne_nil v vs)
      | cons w ws =>
          -- a dash follows the first word only if there is a second
          cases vs with
          | nil =>
              cases ws with
              | nil =>
                  rw [dashed_singleton, dashed_singleton] at h
                  rw [Word.letters_inj h]
              | cons w' ws =>
                  rw [dashed_singleton, dashed_cons_cons] at h
                  exact absurd (by simp [h]) v.dash_not_mem
          | cons v' vs =>
              cases ws with
              | nil =>
                  rw [dashed_singleton, dashed_cons_cons] at h
                  exact absurd (by simp [← h]) w.dash_not_mem
              | cons w' ws =>
                  rw [dashed_cons_cons, dashed_cons_cons] at h
                  obtain ⟨hletters, -, htail⟩ := Text.append_cons_inj v.all_isWordChar
                    w.all_isWordChar (by decide) (by decide) h
                  rw [Word.letters_inj hletters, ih htail]

/-- **A key says which section it names.** -/
theorem Identity.key_inj {a b : Identity} (h : a.key = b.key) : a = b := by
  have hwords : dashed a.words = dashed b.words := String.ofList_inj.mp h
  exact congrArg Identity.mk (dashed_inj hwords)

end Phrasebook.Section
