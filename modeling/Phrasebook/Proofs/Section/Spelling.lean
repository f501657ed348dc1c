import Phrasebook.Proofs.Section.Key
import Phrasebook.Proofs.Section.Name
import Phrasebook.Proofs.Section.Segment

/-!
# Proofs — Section — Spelling

A key spells out the section that it names.  Its words stand between its dashes, and a word is a
segment of which everything is kept and which is cut nowhere (`wordsOf_text`); so the words of a
key, taken as a path, lead to the section again (`extendAll_split_key`).  Nothing of a section is
lost in its key: not where a word starts, and not which word is the first.
-/

namespace Phrasebook.Section

/-! ### Words as segments -/

/-- A small letter or digit is kept as it is, and no segment is cut before it. -/
theorem kept_of_isWordChar {c : Char} (h : isWordChar c = true) :
    kept c = [c] ∧ c.isUpper = false :=
  of_isWordChar (P := fun c => kept c = [c] ∧ c.isUpper = false) (by decide) h

/-- Small letters and digits are all added to the piece before them. -/
theorem piecesFrom_of_isWordChar {cs current : List Char} {afterSmall : Bool}
    (h : ∀ c ∈ cs, isWordChar c = true) (hne : current ++ cs ≠ []) :
    piecesFrom current afterSmall cs = [current ++ cs] := by
  induction cs generalizing current afterSmall with
  | nil =>
      rw [List.append_nil] at hne ⊢
      simp [piecesFrom, hne]
  | cons c cs ih =>
      obtain ⟨hc, hcs⟩ := List.forall_mem_cons.mp h
      obtain ⟨hkept, hupper⟩ := kept_of_isWordChar hc
      have hcut : (c.isUpper && afterSmall && !current.isEmpty) = false := by simp [hupper]
      rw [List.append_cons] at hne ⊢
      simp only [piecesFrom, hcut, hkept]
      exact ih hcs hne

/-- **A word is a segment of one word**, itself. -/
theorem wordsOf_text (w : Word) : wordsOf w.text = [w] := by
  have hpieces : (wordsOf w.text).map Word.letters = [w.letters] := by
    rw [map_letters_wordsOf, Word.text, String.toList_ofList, pieces]
    exact piecesFrom_of_isWordChar w.all_isWordChar w.letters_ne_nil
  obtain ⟨v, hwords, hletters⟩ := List.map_eq_singleton_iff.mp hpieces
  rw [hwords, Word.letters_inj hletters]

namespace Identity

theorem extend_text (id : Identity) (w : Word) : id.extend w.text = .ok ⟨id.words ++ [w]⟩ := by
  rw [extend, wordsOf_text]

/-- A path of words leads to the section of these words. -/
theorem extendAll_texts (id : Identity) (ws : List Word) :
    id.extendAll (ws.map Word.text) = .ok ⟨id.words ++ ws⟩ := by
  induction ws generalizing id with
  | nil => simp [extendAll]
  | cons w ws ih =>
      refine extendAll_cons_eq_ok.mpr ⟨_, id.extend_text w, ?_⟩
      rw [ih, List.append_assoc, List.singleton_append]

/-- A path adds a word at least, unless it is empty. -/
theorem words_ne_nil_of_extendAll {id extended : Identity} {segments : List String}
    (hsegments : segments ≠ []) (h : id.extendAll segments = .ok extended) :
    extended.words ≠ [] := by
  induction segments generalizing id with
  | nil => exact absurd rfl hsegments
  | cons segment segments ih =>
      obtain ⟨first, hfirst, hrest⟩ := extendAll_cons_eq_ok.mp h
      cases segments with
      | cons => exact ih (List.cons_ne_nil _ _) hrest
      | nil =>
          obtain rfl := Except.ok.inj hrest
          unfold extend at hfirst
          split at hfirst
          · cases hfirst
          · obtain rfl := Except.ok.inj hfirst
            simp

/-! ### The words of a key -/

theorem key_eq_intercalate (id : Identity) :
    id.key = String.intercalate "-" (id.words.map Word.text) := by
  rw [← String.toList_inj, String.toList_intercalate, key, String.toList_ofList, List.map_map]
  congr 2
  simp [Word.text, Function.comp_def]

/-- **The words of a key stand between its dashes.** -/
theorem split_key {id : Identity} (h : id.words ≠ []) :
    (id.key.split '-').toList.map (·.copy) = id.words.map Word.text := by
  have hdash : ∀ s ∈ id.words.map Word.text, '-' ∉ s.toList := by
    intro s hs
    obtain ⟨w, -, rfl⟩ := List.mem_map.mp hs
    rw [Word.text, String.toList_ofList]
    exact w.dash_not_mem
  have hsplit := String.toList_split_intercalate hdash
  rw [if_neg (by simpa using h)] at hsplit
  rw [key_eq_intercalate]
  exact hsplit

/-- **A key loses nothing.**  It is made of one or more words of small letters and digits, with a
dash between each two of them, and as a path these words lead to the section that has the key.  So
sections with one key have one variable and one interface. -/
theorem extendAll_split_key {segments : List String} {id : Identity} (hsegments : segments ≠ [])
    (h : root.extendAll segments = .ok id) :
    (∃ words : List String, words ≠ [] ∧
      (∀ w ∈ words, w ≠ "" ∧ ∀ c ∈ w.toList, c.isLower = true ∨ c.isDigit = true) ∧
      id.key = String.intercalate "-" words ∧
      (id.key.split '-').toList.map (·.copy) = words ∧ root.extendAll words = .ok id) ∧
    ∀ path path' a b, root.extendAll path = .ok a → root.extendAll path' = .ok b →
      a.key = b.key → a.variableName = b.variableName ∧ a.interfaceName = b.interfaceName := by
  have hwords := words_ne_nil_of_extendAll hsegments h
  refine ⟨⟨id.words.map Word.text, by simpa using hwords, ?_, id.key_eq_intercalate,
    split_key hwords, root.extendAll_texts id.words⟩, ?_⟩
  · intro text htext
    obtain ⟨w, -, rfl⟩ := List.mem_map.mp htext
    refine ⟨fun hempty => w.letters_ne_nil (String.ofList_eq_empty_iff.mp hempty), fun c hc => ?_⟩
    rw [Word.text, String.toList_ofList] at hc
    exact Bool.or_eq_true_iff.mp (w.all_isWordChar c hc)
  · rintro - - a b - - hkey
    rw [key_inj hkey]
    exact ⟨rfl, rfl⟩

/-- A file in a directory whose name holds a blank: the path has three words, and these lead to the
same section. -/
theorem sample_split_key :
    ∃ id words, root.extendAll ["user profile", "tab2Title"] = .ok id ∧
      id.key = "userprofile-tab2-title" ∧
      (id.key.split '-').toList.map (·.copy) = words ∧ root.extendAll words = .ok id := by
  obtain ⟨id, hid, hkey⟩ : ∃ id, root.extendAll ["user profile", "tab2Title"] = .ok id ∧
      id.key = "userprofile-tab2-title" := ⟨_, rfl, by decide⟩
  obtain ⟨⟨words, -, -, -, hsplit, hextends⟩, -⟩ := extendAll_split_key (List.cons_ne_nil _ _) hid
  exact ⟨id, words, hid, hkey, hsplit, hextends⟩

end Identity

end Phrasebook.Section
