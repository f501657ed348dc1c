import Mathlib.Data.List.TakeWhile
import Phrasebook.Proofs.Section.Key
import Phrasebook.Proofs.Section.Name
import Phrasebook.Proofs.Section.Segment

/-!
# Proofs — Section — Glue

Which sections have their names in common.  A name shows where a word starts by a capital, and a
digit has none: a word that starts with a digit looks like the end of the word before it.  `glued`
puts such words together.  This changes nothing of a name (`flatMap_capitalized_glued`), and after
it every word but the first starts with a capital, so that the words can be read off
(`flatMap_capitalized_inj`).  Two sections hence have one interface name, and one variable, just if
their words are the same when glued (`Identity.interfaceName_eq_iff`).
-/

namespace Phrasebook.Section

namespace Word

/-- The first letter is a digit. -/
def startsWithDigit (w : Word) : Bool :=
  match w.letters with
  | [] => false
  | c :: _ => c.isDigit

/-- Two words as one. -/
def append (v w : Word) : Word where
  letters := v.letters ++ w.letters
  letters_ne_nil := List.append_ne_nil_of_left_ne_nil v.letters_ne_nil w.letters
  all_isWordChar c hc := (List.mem_append.mp hc).elim (v.all_isWordChar c) (w.all_isWordChar c)

theorem letters_append (v w : Word) : (v.append w).letters = v.letters ++ w.letters :=
  rfl

end Word

/-- The words behind some word, with all that start with a digit put onto the word before them. -/
def gluedOnto (v : Word) : List Word → List Word
  | [] => [v]
  | w :: ws => if w.startsWithDigit then gluedOnto (v.append w) ws else v :: gluedOnto w ws

/-- The words with each that starts with a digit, except the first, put onto the word before it. -/
def glued : List Word → List Word
  | [] => []
  | w :: ws => gluedOnto w ws

/-! ### Capitals -/

namespace Word

variable {v w : Word} {c : Char} {cs : List Char}

theorem exists_cons_letters (w : Word) :
    ∃ c cs, w.letters = c :: cs ∧ isWordChar c = true ∧ ∀ d ∈ cs, isWordChar d = true := by
  obtain ⟨c, cs, hletters⟩ := List.exists_cons_of_ne_nil w.letters_ne_nil
  have hword := w.all_isWordChar
  rw [hletters] at hword
  exact ⟨c, cs, hletters, List.forall_mem_cons.mp hword⟩

theorem capitalized_of_letters (h : w.letters = c :: cs) : w.capitalized = c.toUpper :: cs := by
  unfold capitalized
  rw [h]

theorem startsWithDigit_of_letters (h : w.letters = c :: cs) : w.startsWithDigit = c.isDigit := by
  unfold startsWithDigit
  rw [h]

/-- A digit is its own capital, and a letter has one that is no small letter. -/
theorem toUpper_cases {c : Char} (h : isWordChar c = true) :
    if c.isDigit then c.toUpper = c else isWordChar c.toUpper = false :=
  of_isWordChar (P := fun c => if c.isDigit then c.toUpper = c else isWordChar c.toUpper = false)
    (by decide) h

theorem capitalized_of_startsWithDigit (h : w.startsWithDigit = true) :
    w.capitalized = w.letters := by
  obtain ⟨c, cs, hletters, hc, -⟩ := w.exists_cons_letters
  rw [startsWithDigit_of_letters hletters] at h
  have hupper := toUpper_cases hc
  rw [if_pos h] at hupper
  rw [capitalized_of_letters hletters, hletters, hupper]

theorem capitalized_append (v w : Word) :
    (v.append w).capitalized = v.capitalized ++ w.letters := by
  obtain ⟨c, cs, hletters, -⟩ := v.exists_cons_letters
  have happend : (v.append w).letters = c :: (cs ++ w.letters) := by
    rw [letters_append, hletters, List.cons_append]
  rw [capitalized_of_letters happend, capitalized_of_letters hletters, List.cons_append]

theorem startsWithDigit_append (v w : Word) :
    (v.append w).startsWithDigit = v.startsWithDigit := by
  obtain ⟨c, cs, hletters, -⟩ := v.exists_cons_letters
  have happend : (v.append w).letters = c :: (cs ++ w.letters) := by
    rw [letters_append, hletters, List.cons_append]
  rw [startsWithDigit_of_letters happend, startsWithDigit_of_letters hletters]

end Word

open Word

/-! ### Glued words -/

theorem flatMap_capitalized_gluedOnto (v : Word) (ws : List Word) :
    (gluedOnto v ws).flatMap capitalized = v.capitalized ++ ws.flatMap capitalized := by
  induction ws generalizing v with
  | nil => simp [gluedOnto]
  | cons w ws ih =>
      rw [gluedOnto, List.flatMap_cons]
      split
      · next hdigit =>
          rw [ih, capitalized_append, capitalized_of_startsWithDigit hdigit, List.append_assoc]
      · rw [List.flatMap_cons, ih]

/-- **Glued words give the same name.** -/
theorem flatMap_capitalized_glued (ws : List Word) :
    (glued ws).flatMap capitalized = ws.flatMap capitalized := by
  cases ws with
  | nil => rfl
  | cons w ws => exact flatMap_capitalized_gluedOnto w ws

/-- Behind a word that starts with a letter, glued words all do. -/
theorem startsWithDigit_of_mem_gluedOnto {v : Word} (hv : v.startsWithDigit = false)
    (ws : List Word) : ∀ u ∈ gluedOnto v ws, u.startsWithDigit = false := by
  induction ws generalizing v with
  | nil =>
      intro u hu
      obtain rfl := List.mem_singleton.mp hu
      exact hv
  | cons w ws ih =>
      rw [gluedOnto]
      split
      · exact ih ((startsWithDigit_append v w).trans hv)
      · next hw =>
          exact List.forall_mem_cons.mpr ⟨hv, ih ((Bool.not_eq_true _).mp hw)⟩

/-- Of glued words only the first may start with a digit. -/
theorem exists_cons_gluedOnto (v : Word) (ws : List Word) :
    ∃ u us, gluedOnto v ws = u :: us ∧ ∀ w ∈ us, w.startsWithDigit = false := by
  induction ws generalizing v with
  | nil => exact ⟨v, [], rfl, nofun⟩
  | cons w ws ih =>
      rw [gluedOnto]
      split
      · exact ih (v.append w)
      · next hw =>
          exact ⟨v, _, rfl, startsWithDigit_of_mem_gluedOnto ((Bool.not_eq_true _).mp hw) ws⟩

/-! ### Reading words off a name -/

/-- Words that start with a letter start with a capital in a name. -/
theorem takeWhile_flatMap_capitalized {ws : List Word}
    (h : ∀ w ∈ ws, w.startsWithDigit = false) :
    (ws.flatMap capitalized).takeWhile isWordChar = [] := by
  cases ws with
  | nil => rfl
  | cons w ws =>
      obtain ⟨c, cs, hletters, hc, -⟩ := w.exists_cons_letters
      have hdigit := h w List.mem_cons_self
      rw [startsWithDigit_of_letters hletters] at hdigit
      have hupper := toUpper_cases hc
      rw [if_neg (by simp [hdigit])] at hupper
      rw [List.flatMap_cons, capitalized_of_letters hletters, List.cons_append,
        List.takeWhile_cons_of_neg (by simp [hupper])]

/-- The first word of a name goes up to the next capital. -/
theorem capitalized_append_inj {v w : Word} {vs ws : List Word}
    (hvs : ∀ u ∈ vs, u.startsWithDigit = false) (hws : ∀ u ∈ ws, u.startsWithDigit = false)
    (h : v.capitalized ++ vs.flatMap capitalized = w.capitalized ++ ws.flatMap capitalized) :
    v = w ∧ vs.flatMap capitalized = ws.flatMap capitalized := by
  obtain ⟨c, cs, hv, hc, hcs⟩ := v.exists_cons_letters
  obtain ⟨d, ds, hw, hd, hds⟩ := w.exists_cons_letters
  rw [capitalized_of_letters hv, capitalized_of_letters hw, List.cons_append, List.cons_append]
    at h
  obtain ⟨hfirst, hrest⟩ := List.cons.inj h
  have hcd : c = d := by
    rw [← (toUpper_of_isWordChar hc).2, hfirst, (toUpper_of_isWordChar hd).2]
  have hsmall := congrArg (List.takeWhile isWordChar) hrest
  rw [List.takeWhile_append_of_pos hcs, List.takeWhile_append_of_pos hds,
    takeWhile_flatMap_capitalized hvs, takeWhile_flatMap_capitalized hws, List.append_nil,
    List.append_nil] at hsmall
  subst hsmall
  exact ⟨letters_inj (by rw [hv, hw, hcd]), List.append_cancel_left hrest⟩

theorem eq_nil_of_flatMap_capitalized {ws : List Word} (h : ws.flatMap capitalized = []) :
    ws = [] := by
  cases ws with
  | nil => rfl
  | cons w ws =>
      obtain ⟨c, cs, hletters, -⟩ := w.exists_cons_letters
      simp [capitalized_of_letters hletters] at h

/-- **Words that start with letters are read off the name** that is made of them. -/
theorem flatMap_capitalized_inj {vs ws : List Word} (hvs : ∀ u ∈ vs, u.startsWithDigit = false)
    (hws : ∀ u ∈ ws, u.startsWithDigit = false)
    (h : vs.flatMap capitalized = ws.flatMap capitalized) : vs = ws := by
  induction vs generalizing ws with
  | nil => rw [eq_nil_of_flatMap_capitalized h.symm]
  | cons v vs ih =>
      cases ws with
      | nil => exact eq_nil_of_flatMap_capitalized h
      | cons w ws =>
          have hvs' := (List.forall_mem_cons.mp hvs).2
          have hws' := (List.forall_mem_cons.mp hws).2
          obtain ⟨hfirst, hrest⟩ := capitalized_append_inj hvs' hws' h
          rw [hfirst, ih hvs' hws' hrest]

/-- **Words give the same name just if they are the same when glued.** -/
theorem flatMap_capitalized_eq_iff {vs ws : List Word} :
    vs.flatMap capitalized = ws.flatMap capitalized ↔ glued vs = glued ws := by
  constructor
  · intro h
    cases vs with
    | nil => rw [eq_nil_of_flatMap_capitalized h.symm]
    | cons v vs =>
        cases ws with
        | nil => rw [eq_nil_of_flatMap_capitalized h]
        | cons w ws =>
            rw [← flatMap_capitalized_glued, ← flatMap_capitalized_glued (w :: ws)] at h
            -- the first of the glued words is read off first, as it may start with a digit
            obtain ⟨v', vs', hv, hvs⟩ := exists_cons_gluedOnto v vs
            obtain ⟨w', ws', hw, hws⟩ := exists_cons_gluedOnto w ws
            rw [glued, glued, hv, hw] at h ⊢
            obtain ⟨hfirst, hrest⟩ := capitalized_append_inj hvs hws h
            rw [hfirst, flatMap_capitalized_inj hvs hws hrest]
  · intro h
    rw [← flatMap_capitalized_glued vs, h, flatMap_capitalized_glued]

namespace Identity

variable {id extended : Identity} {path : List String}

/-- The words of a section are those of the segments that lead to it. -/
theorem words_extendAll (h : id.extendAll path = .ok extended) :
    extended.words = id.words ++ path.flatMap wordsOf := by
  induction path generalizing id with
  | nil =>
      cases h
      simp
  | cons segment path ih =>
      obtain ⟨first, hfirst, hrest⟩ := extendAll_cons_eq_ok.mp h
      have hwords : first.words = id.words ++ wordsOf segment := by
        unfold extend at hfirst
        split at hfirst
        · cases hfirst
        · next hsegment =>
            cases hfirst
            rw [hsegment]
      rw [ih hrest, hwords, List.flatMap_cons, List.append_assoc]

theorem interfaceName_eq_iff {a b : Identity} :
    a.interfaceName = b.interfaceName ↔ glued a.words = glued b.words := by
  rw [interfaceName, interfaceName, String.ofList_inj, List.cons.injEq,
    ← flatMap_capitalized_eq_iff]
  exact and_iff_right rfl

/-- The variable of a section is not the interface of any. -/
theorem variableName_ne_interfaceName (a b : Identity) : a.variableName ≠ b.interfaceName := by
  rw [variableName_eq, interfaceName_eq]
  exact fun h => absurd (List.cons.inj (String.ofList_inj.mp h)).1 (by decide)

end Identity

end Phrasebook.Section
